import Mathlib
import AtlasFlow.Concurrency.Promises
import AtlasFlow.Data.Dict

/-!
# What routing remembers

`routing/store.py` and the scorecard of `routing/router.py`. An outcome is counted in the scorecard at once, and its row
is inserted by an `await` that may end late, or not at all. A restart counts the rows again. Whatever becomes of the
inserts and the process, the scorecard counts what the table holds and what this process has not stored, each outcome
once (`memory_counts`); latencies are left out.
-/

namespace AtlasFlow.Reference.RoutingMemory

open Concurrency

/-! ## The scorecard -/

/-- The entry of a model in `_scores`. -/
structure Score where
  uses : Nat := 0
  successes : Nat := 0
  failures : Nat := 0
  deriving DecidableEq, Repr

def Score.add (score : Score) (success : Bool) : Score :=
  { uses := score.uses + 1
    successes := if success then score.successes + 1 else score.successes
    failures := if success then score.failures else score.failures + 1 }

/-- `successes / uses`, and zero for a model that was not used. -/
def Score.rate (score : Score) : Rat := if score.uses = 0 then 0 else score.successes / score.uses

abbrev ModelScorecard := Dict String Score

namespace ModelScorecard

variable (scorecard : ModelScorecard) (modelKey : String)

/-- `_scores.get(model_key, {})`. -/
def score : Score := (scorecard.get? modelKey).getD {}

def observe (success : Bool) : ModelScorecard :=
  let entry := scorecard.score modelKey
  scorecard.set modelKey (entry.add success)

/-- `for _ in range(n)`. -/
def observeTimes (scorecard : ModelScorecard) (modelKey : String) (success : Bool) : Nat → ModelScorecard
  | 0 => scorecard
  | n + 1 => observeTimes (scorecard.observe modelKey success) modelKey success n

def successRate : Rat := (scorecard.score modelKey).rate

def totalUses : Nat := (scorecard.score modelKey).uses

end ModelScorecard

/-! ## The table -/

/-- A row of `model_observations`. -/
structure Observation where
  id : String
  modelKey : String
  success : Bool
  deriving DecidableEq, Repr

structure ModelStats where
  modelKey : String
  score : Score
  deriving DecidableEq, Repr

/-- `COUNT(*)`, `SUM(success)` and the difference, over the rows of a model. -/
def tally (modelKey : String) (rows : List Observation) : Score :=
  { uses := rows.countP fun row => row.modelKey = modelKey
    successes := rows.countP fun row => row.modelKey = modelKey && row.success
    failures := (rows.countP fun row => row.modelKey = modelKey) -
      rows.countP fun row => row.modelKey = modelKey && row.success }

/-- `GROUP BY model_key`. -/
def groups (rows : List Observation) : List ModelStats :=
  (rows.map Observation.modelKey).dedup.map fun modelKey => { modelKey, score := tally modelKey rows }

/-- What `stats` may answer: models with as many uses come in any order. -/
def Lists (rows : List Observation) (stats : List ModelStats) : Prop :=
  stats.Perm (groups rows) ∧ stats.Pairwise fun a b => b.score.uses ≤ a.score.uses

instance (rows : List Observation) (stats : List ModelStats) : Decidable (Lists rows stats) :=
  inferInstanceAs (Decidable (_ ∧ _))

/-- `restore`. -/
def restore (stats : List ModelStats) (scorecard : ModelScorecard) : ModelScorecard :=
  stats.foldl (fun scorecard stat =>
    (scorecard.observeTimes stat.modelKey true stat.score.successes).observeTimes stat.modelKey false stat.score.failures)
    scorecard

/-! ## The memory -/

/-- The table, the scorecard, and the inserts that have not ended. For an observer: the outcomes whose inserts this
process has failed to make, those that were lost by earlier processes, and all there ever were. -/
structure Memory where
  rows : List Observation := []
  scorecard : ModelScorecard := []
  pending : List Observation := []
  failed : List Observation := []
  lost : List Observation := []
  observed : List Observation := []

inductive Event
  /-- `scorecard.observe`, and `record_observation` up to its `await`. -/
  | observe (observation : Observation)
  /-- The insert of an outcome is committed, be it with a later statement, or it raises. -/
  | commits (n : Nat)
  | fails (n : Nat)
  /-- The process ends at any moment, and the application starts again. -/
  | restart (stats : List ModelStats)

def step (memory : Memory) : Event → Option Memory
  | .observe observation =>
    some { memory with
      scorecard := memory.scorecard.observe observation.modelKey observation.success
      pending := memory.pending ++ [observation]
      observed := memory.observed ++ [observation] }
  | .commits n =>
    memory.pending[n]?.bind fun observation =>
      -- `id TEXT PRIMARY KEY`
      if observation.id ∉ memory.rows.map Observation.id then
        some { memory with rows := memory.rows ++ [observation], pending := memory.pending.eraseIdx n }
      else none
  | .fails n =>
    memory.pending[n]?.map fun observation =>
      { memory with pending := memory.pending.eraseIdx n, failed := memory.failed ++ [observation] }
  | .restart stats =>
    if Lists memory.rows stats then
      some { memory with
        scorecard := restore stats []
        pending := []
        failed := []
        lost := memory.lost ++ memory.failed ++ memory.pending }
    else none

/-- What a maintainer may rely on. -/
structure Counts (memory : Memory) : Prop where
  /-- The scorecard counts what is stored and what this process has not stored. -/
  scorecard : ∀ modelKey,
    memory.scorecard.score modelKey = tally modelKey (memory.rows ++ memory.pending ++ memory.failed)
  /-- No outcome is counted twice, and none is made up. -/
  observed : memory.observed.Perm (memory.rows ++ memory.pending ++ memory.failed ++ memory.lost)
  distinct : (memory.rows.map Observation.id).Nodup
  /-- With nothing under way, the statistics that are shown are those that the router has. -/
  settled : memory.pending = [] → memory.failed = [] → ∀ stats, Lists memory.rows stats → ∀ stat ∈ stats,
    memory.scorecard.successRate stat.modelKey = stat.score.rate

/-! ## Counting -/

theorem score_observe (scorecard : ModelScorecard) (modelKey other : String) (success : Bool) :
    (scorecard.observe modelKey success).score other =
      if other = modelKey then (scorecard.score modelKey).add success else scorecard.score other := by
  unfold ModelScorecard.observe ModelScorecard.score
  rw [Dict.get?_set]
  by_cases h : other = modelKey
  · rw [if_pos h, if_pos h.symm]
    rfl
  · rw [if_neg h, if_neg (Ne.symm h)]

theorem successes_le (modelKey : String) (rows : List Observation) :
    (rows.countP fun row => row.modelKey = modelKey && row.success) ≤
      rows.countP fun row => row.modelKey = modelKey :=
  List.countP_mono_left fun row _ h => by simp_all

theorem tally_append (modelKey : String) (rows : List Observation) (row : Observation) :
    tally modelKey (rows ++ [row]) =
      if modelKey = row.modelKey then (tally modelKey rows).add row.success else tally modelKey rows := by
  have hle := successes_le modelKey rows
  by_cases h : modelKey = row.modelKey
  · subst h
    cases hsuccess : row.success <;> simp [tally, Score.add, hsuccess]
    all_goals omega
  · have hne : ¬ row.modelKey = modelKey := Ne.symm h
    simp [tally, h, hne]

theorem tally_perm {rows rows' : List Observation} (h : rows.Perm rows') (modelKey : String) :
    tally modelKey rows = tally modelKey rows' := by
  unfold tally
  rw [h.countP_eq, h.countP_eq]

/-- Outcomes of one kind, of one model. -/
theorem score_observeTimes (scorecard : ModelScorecard) (modelKey other : String) (success : Bool) (n : Nat) :
    (scorecard.observeTimes modelKey success n).score other =
      if other = modelKey then
        { uses := (scorecard.score modelKey).uses + n
          successes := (scorecard.score modelKey).successes + if success then n else 0
          failures := (scorecard.score modelKey).failures + if success then 0 else n }
      else scorecard.score other := by
  induction n generalizing scorecard with
  | zero =>
      by_cases h : other = modelKey
      · rw [if_pos h, h]
        cases success <;> rfl
      · rw [if_neg h]
        rfl
  | succ n ih =>
      rw [ModelScorecard.observeTimes, ih, score_observe, if_pos rfl, score_observe]
      by_cases h : other = modelKey
      · rw [if_pos h, if_pos h]
        cases success <;> simp [Score.add] <;> omega
      · rw [if_neg h, if_neg h, if_neg h]

theorem restore_cons (stat : ModelStats) (stats : List ModelStats) (scorecard : ModelScorecard) :
    restore (stat :: stats) scorecard = restore stats ((scorecard.observeTimes stat.modelKey true
      stat.score.successes).observeTimes stat.modelKey false stat.score.failures) := List.foldl_cons ..

/-- A model that is not listed keeps its score. -/
theorem score_restore_of_not_mem {stats : List ModelStats} {modelKey : String}
    (h : modelKey ∉ stats.map ModelStats.modelKey) (scorecard : ModelScorecard) :
    (restore stats scorecard).score modelKey = scorecard.score modelKey := by
  induction stats generalizing scorecard with
  | nil => rfl
  | cons stat stats ih =>
      obtain ⟨hne, hrest⟩ := not_or.mp (mt List.mem_cons.mpr h)
      rw [restore_cons, ih hrest, score_observeTimes, if_neg hne, score_observeTimes, if_neg hne]

/-- **A model that is listed has the score of the list.** -/
theorem score_restore {stats : List ModelStats} (hnodup : (stats.map ModelStats.modelKey).Nodup)
    (hsum : ∀ stat ∈ stats, stat.score.uses = stat.score.successes + stat.score.failures) {scorecard : ModelScorecard}
    (hfresh : ∀ stat ∈ stats, scorecard.score stat.modelKey = {}) {stat : ModelStats} (hstat : stat ∈ stats) :
    (restore stats scorecard).score stat.modelKey = stat.score := by
  induction stats generalizing scorecard with
  | nil => cases hstat
  | cons first stats ih =>
      obtain ⟨hfirst, hnodup⟩ := List.nodup_cons.mp hnodup
      have hcounted : ((scorecard.observeTimes first.modelKey true first.score.successes).observeTimes first.modelKey
          false first.score.failures).score first.modelKey = first.score := by
        rw [score_observeTimes, if_pos rfl, score_observeTimes, if_pos rfl, hfresh first List.mem_cons_self]
        have := hsum first List.mem_cons_self
        simp only [Bool.false_eq_true, if_true, if_false]
        rcases hscore : first.score with ⟨uses, successes, failures⟩
        rw [hscore] at this
        simp_all
      rw [restore_cons]
      rcases List.mem_cons.mp hstat with rfl | hstat
      · rw [score_restore_of_not_mem hfirst, hcounted]
      · refine ih hnodup (fun other hother => hsum other (List.mem_cons_of_mem first hother)) (fun other hother => ?_) hstat
        have hne : other.modelKey ≠ first.modelKey := fun heq => hfirst (heq ▸ List.mem_map_of_mem hother)
        rw [score_observeTimes, if_neg hne, score_observeTimes, if_neg hne]
        exact hfresh other (List.mem_cons_of_mem first hother)

theorem tally_sum (modelKey : String) (rows : List Observation) :
    (tally modelKey rows).uses = (tally modelKey rows).successes + (tally modelKey rows).failures :=
  (Nat.add_sub_cancel' (successes_le modelKey rows)).symm

theorem mem_groups {rows : List Observation} {stat : ModelStats} :
    stat ∈ groups rows ↔ (∃ row ∈ rows, row.modelKey = stat.modelKey) ∧ stat.score = tally stat.modelKey rows := by
  unfold groups
  rw [List.mem_map]
  constructor
  · rintro ⟨modelKey, hmem, rfl⟩
    exact ⟨List.mem_map.mp (List.mem_dedup.mp hmem), rfl⟩
  · rintro ⟨hrow, hscore⟩
    refine ⟨stat.modelKey, List.mem_dedup.mpr (List.mem_map.mpr hrow), ?_⟩
    rw [← hscore]

theorem groups_nodup (rows : List Observation) : ((groups rows).map ModelStats.modelKey).Nodup := by
  unfold groups
  rw [List.map_map]
  show ((rows.map Observation.modelKey).dedup.map id).Nodup
  rw [List.map_id]
  exact List.nodup_dedup _

theorem tally_of_not_mem {rows : List Observation} {modelKey : String} (h : ∀ row ∈ rows, row.modelKey ≠ modelKey) :
    tally modelKey rows = {} := by
  have huses : (rows.countP fun row => row.modelKey = modelKey) = 0 :=
    List.countP_eq_zero.mpr fun row hrow => by simpa using h row hrow
  have hle := successes_le modelKey rows
  rw [huses] at hle
  unfold tally
  rw [huses, Nat.le_zero.mp hle]

/-- **The rows are counted again.** -/
theorem score_restored {rows : List Observation} {stats : List ModelStats} (h : Lists rows stats) (modelKey : String) :
    (restore stats []).score modelKey = tally modelKey rows := by
  have hkeys : (stats.map ModelStats.modelKey).Nodup := (h.1.map ModelStats.modelKey).nodup_iff.mpr (groups_nodup rows)
  have hscore : ∀ stat ∈ stats, stat.score = tally stat.modelKey rows := fun stat hstat =>
    (mem_groups.mp (h.1.mem_iff.mp hstat)).2
  by_cases hmem : modelKey ∈ stats.map ModelStats.modelKey
  · obtain ⟨stat, hstat, rfl⟩ := List.mem_map.mp hmem
    rw [score_restore hkeys (fun stat hstat => hscore stat hstat ▸ tally_sum _ _) (fun _ _ => rfl) hstat, hscore stat hstat]
  · rw [score_restore_of_not_mem hmem]
    refine (tally_of_not_mem fun row hrow heq => hmem ?_).symm
    have hgroup : (⟨modelKey, tally modelKey rows⟩ : ModelStats) ∈ groups rows := mem_groups.mpr ⟨⟨row, hrow, heq⟩, rfl⟩
    exact List.mem_map_of_mem (h.1.mem_iff.mpr hgroup)

/-! ## Runs -/

section Runs

variable {memory memory' : Memory}

theorem tally_add (modelKey : String) {rows rows' : List Observation} {row : Observation}
    (h : rows'.Perm (rows ++ [row])) : tally modelKey rows' =
      if modelKey = row.modelKey then (tally modelKey rows).add row.success else tally modelKey rows := by
  rw [tally_perm h, tally_append]

/-- With nothing under way the scorecard has the statistics of the rows. -/
theorem Counts.of (hscorecard : ∀ modelKey,
      memory.scorecard.score modelKey = tally modelKey (memory.rows ++ memory.pending ++ memory.failed))
    (hobserved : memory.observed.Perm (memory.rows ++ memory.pending ++ memory.failed ++ memory.lost))
    (hdistinct : (memory.rows.map Observation.id).Nodup) : Counts memory where
  scorecard := hscorecard
  observed := hobserved
  distinct := hdistinct
  settled hpending hfailed stats hlists stat hstat := by
    have hscore := (mem_groups.mp (hlists.1.mem_iff.mp hstat)).2
    unfold ModelScorecard.successRate
    rw [hscorecard, hpending, hfailed, List.append_nil, List.append_nil, ← hscore]

theorem eraseIdx_perm {n : Nat} {pending : List Observation} {row : Observation} (h : pending[n]? = some row) :
    (row :: pending.eraseIdx n).Perm pending := by
  obtain ⟨hn, rfl⟩ := List.getElem?_eq_some_iff.mp h
  exact List.getElem_cons_eraseIdx_perm hn

/-- What is not lost is the same, so that the scorecard is right as it is. -/
theorem Counts.moved (h : Counts memory) {rows pending failed : List Observation}
    (hperm : (rows ++ pending ++ failed).Perm (memory.rows ++ memory.pending ++ memory.failed))
    (hdistinct : (rows.map Observation.id).Nodup) : Counts { memory with rows, pending, failed } :=
  .of (fun modelKey => (h.scorecard modelKey).trans (tally_perm hperm modelKey).symm)
    (h.observed.trans (hperm.symm.append_right memory.lost)) hdistinct

/-- **An event.** -/
theorem Counts.step (h : Counts memory) {e : Event} (hstep : step memory e = some memory') : Counts memory' := by
  cases e with
  | observe observation =>
      cases hstep
      have hperm : (memory.rows ++ (memory.pending ++ [observation]) ++ memory.failed).Perm
          (memory.rows ++ memory.pending ++ memory.failed ++ [observation]) := by
        refine List.perm_iff_count.mpr fun row => ?_
        simp only [List.count_append]
        omega
      refine .of (fun modelKey => ?_) (List.perm_iff_count.mpr fun row => ?_) h.distinct
      · show (memory.scorecard.observe observation.modelKey observation.success).score modelKey = _
        rw [score_observe, tally_add modelKey hperm, h.scorecard, h.scorecard]
        by_cases heq : modelKey = observation.modelKey
        · rw [if_pos heq, if_pos heq, heq]
        · rw [if_neg heq, if_neg heq]
      · have hcount := h.observed.count_eq row
        simp only [List.count_append] at hcount ⊢
        omega
  | commits n =>
      obtain ⟨observation, hget, hinsert⟩ := Option.bind_eq_some_iff.mp hstep
      obtain ⟨hid, rfl⟩ := guard_eq_some.mp hinsert
      have herase := eraseIdx_perm hget
      refine h.moved (List.perm_iff_count.mpr fun row => ?_) ?_
      · have hcount := herase.count_eq row
        simp only [List.count_append, List.count_cons, List.count_nil] at hcount ⊢
        omega
      · rw [List.map_append, List.map_singleton]
        exact h.distinct.append (List.nodup_singleton _) fun id hmem hlast => hid (List.mem_singleton.mp hlast ▸ hmem)
  | fails n =>
      obtain ⟨observation, hget, rfl⟩ := Option.map_eq_some_iff.mp hstep
      have herase := eraseIdx_perm hget
      refine h.moved (List.perm_iff_count.mpr fun row => ?_) h.distinct
      have hcount := herase.count_eq row
      simp only [List.count_append, List.count_cons, List.count_nil] at hcount ⊢
      omega
  | restart stats =>
      obtain ⟨hlists, rfl⟩ := guard_eq_some.mp hstep
      refine .of (fun modelKey => ?_) (List.perm_iff_count.mpr fun row => ?_) h.distinct
      · rw [List.append_nil, List.append_nil]
        exact score_restored hlists modelKey
      · have hcount := h.observed.count_eq row
        simp only [List.count_append, List.count_nil] at hcount ⊢
        omega

end Runs

/-- Two outcomes, one of them stored when the process ends. -/
def interrupted : List Event :=
  [.observe ⟨"obs-1", "deepseek-v4-pro", true⟩, .observe ⟨"obs-2", "deepseek-v4-pro", false⟩, .commits 0,
    .restart [⟨"deepseek-v4-pro", ⟨1, 1, 0⟩⟩]]

end AtlasFlow.Reference.RoutingMemory
