import AtlasFlow.Application.Services
import AtlasFlow.Orchestration.WriteScopes

/-!
# What locking a plan refuses

`LockAsync` of a draft asks `FindWriteScopeConflicts` whether two of its tasks would write the same
place, and refuses the plan when there is an answer. So it refuses the right plans where that
function reports the right pairs.
-/

namespace AtlasFlow

open Concurrency

namespace PlanService

/-- What locking a stored draft can do: it is called off, it refuses the overlaps it found, or it found
none and the plan is locked. -/
theorem lockAsync_cases {plan : Plan} {row : PlanRow} {ct : CancellationToken} {db db' : Database}
    {out : Except Exn Plan} (hfind : db.findPlan plan.id = some row) (hread : row.read = .ok plan)
    (hdraft : plan.state = .draft)
    (h : Prog.Runs Database.answers (lockAsync plan.id ct) db out db') :
    out = .error .operationCanceled ∨
      (TaskGraph.findWriteScopeConflicts plan.tasks ≠ [] ∧
        out = .error (overlapping (TaskGraph.findWriteScopeConflicts plan.tasks))) ∨
      (TaskGraph.findWriteScopeConflicts plan.tasks = [] ∧
        out = .ok { plan with state := .locked }) := by
  rw [lockAsync, Prog.bind_eq, Prog.runs_bind] at h
  -- reading the plan again gives this one
  have hsame : ∀ {row' : PlanRow} {existing : Plan}, db.findPlan plan.id = some row' →
      row'.read = .ok existing → existing = plan := fun hfind' hread' => by
    rw [hfind, Option.some.injEq] at hfind'
    rw [← hfind', hread] at hread'
    exact (Except.ok.inj hread').symm
  rcases h with ⟨found?, w, hfound, hrest⟩ | ⟨e, rfl, hfound⟩
  · obtain ⟨rfl, ⟨_, hout⟩ | ⟨hnone, _⟩ | ⟨row', hrow', ⟨existing, hread', hout⟩ | ⟨_, _, hout⟩⟩⟩ :=
      PlanRepository.findAsync_cases hfound
    · cases hout
    · rw [hfind] at hnone; cases hnone
    · cases hout
      obtain rfl := hsame hrow' hread'
      simp only [hdraft, ne_eq, not_true_eq_false, if_false] at hrest
      split at hrest
      · next hconflicts =>
          simp only [Prog.throw_eq, Prog.runs_raise] at hrest
          exact .inr (.inl ⟨List.length_pos_iff.mp hconflicts, hrest.1⟩)
      · next hconflicts =>
          have hnil : TaskGraph.findWriteScopeConflicts existing.tasks = [] := by
            simpa using hconflicts
          rw [Prog.bind_eq, Prog.runs_bind] at hrest
          rcases hrest with ⟨_, w', _, hret⟩ | ⟨e, rfl, hsave⟩
          · simp only [Prog.pure_eq, Prog.runs_ret] at hret
            exact .inr (.inr ⟨hnil, hret.1⟩)
          · -- the draft that was read lets a locked plan be written over it
            cases hcase : PlanRepository.saveAsync_cases hsave with
            | calledOff hct => exact .inl rfl
            | unreadable hfind' hread' =>
                rw [hfind, Option.some.injEq] at hfind'
                rw [← hfind', hread] at hread'
                cases hread'
            | refused hfind' hread' hguard =>
                obtain rfl := hsame hfind' hread'
                exact absurd hdraft hguard.1
    · cases hout
  · obtain ⟨rfl, ⟨_, hout⟩ | ⟨_, hout⟩ | ⟨row', hrow', ⟨_, _, hout⟩ | ⟨e', hread', hout⟩⟩⟩ :=
      PlanRepository.findAsync_cases hfound
    · cases hout
      exact .inl rfl
    · cases hout
    · cases hout
    · rw [hfind, Option.some.injEq] at hrow'
      rw [← hrow', hread] at hread'
      cases hread'

/-- Locking the plan, wherever it is stored as a draft, refuses it exactly when two of its tasks can
run at once and may write the same place. -/
def LocksExactly (plan : Plan) : Prop :=
  ∀ db row ct out db', db.findPlan plan.id = some row → row.read = .ok plan → plan.state = .draft →
    Prog.Runs Database.answers (lockAsync plan.id ct) db out db' → out ≠ .error .operationCanceled →
    ((∃ conflicts, out = .error (overlapping conflicts)) ↔
      ∃ first second, TaskGraph.Before plan.tasks first second ∧
        TaskGraph.Collide plan.tasks first second)

/-- Where the conflicts reported are the real ones, locking refuses the right plans. -/
theorem locksExactly {plan : Plan} (h : TaskGraph.ConflictsAreReal plan.tasks) : LocksExactly plan := by
  intro db row ct out db' hfind hread hdraft hruns hout
  have hreal : TaskGraph.findWriteScopeConflicts plan.tasks ≠ [] ↔
      ∃ first second, TaskGraph.Before plan.tasks first second ∧
        TaskGraph.Collide plan.tasks first second := by
    constructor
    · intro hne
      obtain ⟨c, hc⟩ := List.exists_mem_of_ne_nil _ hne
      obtain ⟨first, second, hbefore, hconflict⟩ := TaskGraph.exists_conflict hc
      exact ⟨first, second, hbefore, (h first second hbefore).mp
        ⟨c, hc, TaskGraph.ids_of_conflict hconflict⟩⟩
    · rintro ⟨first, second, hbefore, hcollide⟩
      obtain ⟨c, hc, _⟩ := (h first second hbefore).mpr hcollide
      exact List.ne_nil_of_mem hc
  rw [← hreal]
  rcases lockAsync_cases hfind hread hdraft hruns with rfl | ⟨hne, rfl⟩ | ⟨hnil, rfl⟩
  · exact absurd rfl hout
  · exact ⟨fun _ => hne, fun _ => ⟨_, rfl⟩⟩
  · refine ⟨?_, fun hne => absurd hnil hne⟩
    rintro ⟨_, hraise⟩
    cases hraise

/-- **Exactly the plans for which the reported conflicts are the real ones and locking refuses the
right plans.** -/
theorem conflicts_and_locks_iff (plan : Plan) (hvalid : TaskGraph.Valid plan.tasks) :
    TaskGraph.ConflictsAreReal plan.tasks ∧ LocksExactly plan ↔
      ∀ first second, TaskGraph.Before plan.tasks first second →
        TaskGraph.Plain plan.tasks first second := by
  rw [← hvalid.conflictsAreReal_iff]
  exact ⟨And.left, fun h => ⟨h, locksExactly h⟩⟩

/-- Two unrelated tasks that write different directories of one folder. -/
def siblings : Plan :=
  { (default : Plan) with
    state := .draft
    tasks :=
      [{ id := ⟨"a"⟩, objective := "one", risk := .low, isParallelizable := true,
         writeScope := [⟨"src/a"⟩] },
       { id := ⟨"b"⟩, objective := "two", risk := .low, isParallelizable := true,
         writeScope := [⟨"src/b"⟩] }] }

theorem conflicts_and_locks_siblings :
    TaskGraph.ConflictsAreReal siblings.tasks ∧ LocksExactly siblings ↔
      ∀ first second, TaskGraph.Before siblings.tasks first second →
        TaskGraph.Plain siblings.tasks first second :=
  conflicts_and_locks_iff siblings (by decide)

/-- The plan is valid, nothing in it collides, and it is refused all the same. -/
theorem siblings_refused :
    TaskGraph.Valid siblings.tasks ∧
      ¬ (TaskGraph.ConflictsAreReal siblings.tasks ∧ LocksExactly siblings) := by
  have hvalid : TaskGraph.Valid siblings.tasks := by decide
  refine ⟨hvalid, fun ⟨hreal, _⟩ => ?_⟩
  have hplain := hvalid.conflictsAreReal_iff.mp hreal (siblings.tasks[0]) (siblings.tasks[1]) (.refl _)
  exact absurd (hplain.nested (TaskGraph.not_related (by decide)) (by decide +kernel))
    (by decide +kernel)

end PlanService

end AtlasFlow
