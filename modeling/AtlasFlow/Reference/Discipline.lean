import AtlasFlow.Reference.Outcomes

/-!
# In which order the work is done

Dependencies before dependents, one batch at a time, a review before a merge, a merge before a success.
-/

namespace AtlasFlow.Reference

open Concurrency

variable {g : GoalRunner} {plan : Plan} {gen : Generated} {w : World}
  {c : Conf Party Op Ret PyExn GoalRunner.Point Result World}

/-! ## Dependencies, and batches -/

/-- A task of the run has an attempt in flight. -/
def InFlight (w : World) (id : TaskId) : Prop :=
  ∃ a ∈ w.db.attempts, a.taskId = id ∧ a.state.isTerminal = false

/-- Nothing stood in the way of a task: its first reservation was granted, every attempt at it succeeded, and
every branch of it was merged. -/
structure Unhindered (m : Marks) : Prop where
  granted : m.refused = false
  succeeded : ∀ h ∈ m.heard, h.succeeded = true
  merged : false ∉ m.integrations

/-- The discipline of a run. -/
structure Disciplined (g : GoalRunner) (plan : Plan) (gen : Generated)
    (c : Conf Party Op Ret PyExn GoalRunner.Point Result World) : Prop where
  dependencies : ∀ entry, Assigned plan gen entry → InFlight c.world entry.1.id →
    ∀ dep ∈ entry.1.dependencies, Done c.world dep
  batch : (∃ entry, Assigned plan gen entry ∧ InFlight c.world entry.1.id) →
    ∃ ready batch, batch ∈ GoalRunner.parallelBatches g.maxParallelTasks ready ∧
      (∀ entry ∈ batch, Assigned plan gen entry) ∧ (batch.length : Int) ≤ max 1 g.maxParallelTasks ∧
        ∀ entry, Assigned plan gen entry → InFlight c.world entry.1.id → entry ∈ batch
  once : (c.world.coroutines.map fun k => k.task.id).Nodup
  passes : ∀ run nodes outs, c.cur .execute = .ret (.inl (.pass run nodes outs)) →
    (c.world.coroutines.map Coroutine.result = outs.map fun o => some (.ok o)) ∧
      ∀ o ∈ outs, o.succeeded = true
  complete : Over c → c.world.ledger.accepted = false → c.world.ledger.raised = [] →
    (∀ entry, Assigned plan gen entry → Unhindered (c.world.ledger.marks entry.1.id)) →
      AllDone plan gen c.world

theorem Inv.inFlight (h : Inv g plan gen w) (hinj : gen.Injective plan) {entry : Entry}
    (hentry : Assigned plan gen entry) (hflight : InFlight w entry.1.id) :
    ∃ n k, Live w n k ∧ k.entry = entry := by
  obtain ⟨a, ha, htask, hopen⟩ := hflight
  obtain ⟨n, k, hlive, hid⟩ := h.closed a ha hopen entry hentry htask
  exact ⟨n, k, hlive, (h.spawned n k hlive.1).2.eq_of_id hinj hentry (hid.trans htask)⟩

theorem Unhindered.untroubled {m : Marks} (h : Unhindered m) : m.troubled = false := by
  unfold Marks.troubled
  rw [Bool.or_eq_false_iff]
  constructor
  · exact List.any_eq_false.mpr fun x hx => by simp [h.succeeded x hx]
  · simpa using h.merged

/-- The attempts of reviewers are attempts. -/
theorem Marks.heard_of_reviews {m : Marks} {h : Heard} (hh : h ∈ m.reviews) : h ∈ m.heard :=
  (List.dropWhile_sublist _).mem (List.mem_of_mem_tail hh)

theorem Unhindered.uncut {m : Marks} (h : Unhindered m) : m.cut = false := by
  refine List.any_eq_false.mpr fun x hx hcancelled => ?_
  have hsucceeded := h.succeeded x (Marks.heard_of_reviews hx)
  rw [Heard.succeeded_of_cancelled hcancelled] at hsucceeded
  cases hsucceeded

/-- Without anything in the way every task succeeds. -/
theorem allDone_of_unhindered (hfresh : Fresh plan gen w) (hvalid : plan.Valid)
    (hsteps : (system g plan gen).Steps (begun g plan gen w) c) (hover : Over c)
    (haccepted : c.world.ledger.accepted = false) (hraised : c.world.ledger.raised = [])
    (hall : ∀ entry, Assigned plan gen entry → Unhindered (c.world.ledger.marks entry.1.id)) :
    AllDone plan gen c.world := by
  rcases hover with ⟨r, hreturned⟩ | ⟨e, hexception⟩
  · rcases hfresh.returned hvalid hsteps hreturned with hstopped | ⟨outs, state, hsettling, _⟩
    · rw [hstopped.accepted] at haccepted
      cases haccepted
    · have hfate : ∀ entry s, Assigned plan gen entry → View entry.1 s c.world → s.state ≠ .failed ∧
          s.state ≠ .ready := by
        intro entry s hentry hview
        obtain ⟨s', hview', hfate⟩ := hsettling.fates entry hentry
        have hsame : s'.row entry.1 = s.row entry.1 := Option.some.inj (hview'.row.symm.trans hview.row)
        have hstate : s'.state = s.state := congrArg Task.state hsame
        have hmarks := hview'.marks.symm
        rw [← hstate]
        cases hfate with
        | succeeded hs => exact ⟨by rw [hs]; nofun, by rw [hs]; nofun⟩
        | failed _ htroubled =>
            rw [hmarks, (hall entry hentry).untroubled] at htroubled
            cases htroubled
        | refused _ hrefused =>
            rw [hmarks, (hall entry hentry).granted] at hrefused
            cases hrefused
        | untouched hs =>
            rw [hs]
            exact ⟨nofun, nofun⟩
      rcases hsettling.exhausted with ⟨entry, s, hentry, hview, hfailed⟩ | ⟨entry, s, hentry, hview, hready⟩ | hdone
      · exact absurd hfailed (hfate entry s hentry hview).1
      · exact absurd hready (hfate entry s hentry hview).2
      · exact hdone
  · have hfailed := hfresh.raised hvalid hsteps hexception
    rcases hfailed.cause with ⟨x, hx, _⟩ | ⟨n, k, _, hk, _, hcut⟩
    · rw [hraised] at hx
      exact absurd hx List.not_mem_nil
    · rw [(hall k.entry (hfailed.inv.spawned n k hk).2).uncut] at hcut
      cases hcut

/-- **Every run is disciplined**: an attempt is in flight only when its dependencies are SUCCEEDED, the tasks
in flight are of one batch, no task is run twice, no pass starts after one in which a task did not succeed,
and if nothing stands in the way of any task, all of them succeed. -/
theorem run_disciplined (g : GoalRunner) (plan : Plan) (gen : Generated) (w : World)
    (c : Conf Party Op Ret PyExn GoalRunner.Point Result World) (hvalid : plan.Valid)
    (hfresh : Fresh plan gen w) (hsteps : (system g plan gen).Steps (begun g plan gen w) c) :
    Disciplined g plan gen c := by
  have hinv := hfresh.inv hvalid hsteps
  have hinj := hfresh.injective
  refine ⟨?_, ?_, hinv.distinct, ?_, allDone_of_unhindered hfresh hvalid hsteps⟩
  · intro entry hentry hflight dep hdep
    obtain ⟨n, k, hlive, rfl⟩ := hinv.inFlight hinj hentry hflight
    exact hinv.ready n k hlive.1 dep hdep
  · rintro ⟨entry, hentry, hflight⟩
    obtain ⟨n, k, hlive, _⟩ := hinv.inFlight hinj hentry hflight
    obtain ⟨first, ready, hbatch, hfirst⟩ := hinv.batch ⟨n, k, hlive⟩
    refine ⟨ready, _, hbatch, ?_, GoalRunner.length_of_mem_parallelBatches hbatch, ?_⟩
    · intro entry hentry
      obtain ⟨k, hk, rfl⟩ := List.mem_map.mp hentry
      obtain ⟨n, hn⟩ := List.mem_iff_getElem?.mp (List.mem_of_mem_drop hk)
      exact (hinv.spawned n k hn).2
    · intro entry hentry hflight
      obtain ⟨m, k, hlive, rfl⟩ := hinv.inFlight hinj hentry hflight
      refine List.mem_map_of_mem (List.mem_iff_getElem?.mpr ⟨m - first, ?_⟩)
      rw [List.getElem?_drop, Nat.add_sub_cancel' (hfirst m k hlive)]
      exact hlive.1
  · intro run nodes outs hpass
    have hexecute := hfresh.holds hvalid hsteps .execute
    rw [hpass] at hexecute
    have hpassing : Passing g plan gen run nodes outs c.world := hexecute
    exact ⟨hpassing.between.results, hpassing.succeeded⟩

/-- The run of a single task is one. -/
theorem run_disciplined_single : Disciplined mockRunner (single { id := "a", objective := "write" }) ids singleRun :=
  run_disciplined mockRunner _ ids { db := {} } singleRun
    (show Plan.validateDag _ = [] by decide +kernel) (Fresh.of_empty _) (System.play_steps _ _ _)

/-- A run whose branch has a conflict with the target. -/
def conflictRun : Conf Party Op Ret PyExn GoalRunner.Point Result World :=
  let g := { mockRunner with worktrees := true }
  let s : Surroundings := { integration := .ok { integrated := false, conflicts := ["a.py"], reason := "conflict" } }
  (system g (single { id := "a", objective := "write", writeScope := ["a.py"] }) ids).play
    (turns g s .execute 16 ++ turns g s (.coroutine 0) 40 ++ turns g s .execute 20)
    (begun g (single { id := "a", objective := "write", writeScope := ["a.py"] }) ids { db := {} })

/-- Its only attempt succeeds and no reservation is refused, yet its task fails. -/
theorem conflict_fails :
    (single { id := "a", objective := "write", writeScope := ["a.py"] }).Valid ∧
    Fresh (single { id := "a", objective := "write", writeScope := ["a.py"] }) ids { db := {} } ∧
    (system { mockRunner with worktrees := true }
      (single { id := "a", objective := "write", writeScope := ["a.py"] }) ids).Steps
      (begun { mockRunner with worktrees := true }
        (single { id := "a", objective := "write", writeScope := ["a.py"] }) ids { db := {} }) conflictRun ∧
    (∃ r, conflictRun.cur .execute = .ret (.inr r)) ∧
    (conflictRun.world.ledger.marks ⟨"a"⟩).heard.map Heard.succeeded = [true] ∧
    (conflictRun.world.ledger.marks ⟨"a"⟩).refused = false ∧
    conflictRun.world.db.tasks.map Task.state = [.failed] := by
  refine ⟨show Plan.validateDag _ = [] by decide +kernel, Fresh.of_empty _, System.play_steps _ _ _, ?_, ?_, ?_, ?_⟩
  · exact System.cur_of_result (by decide +kernel)
  all_goals decide +kernel

/-! ## Reviews, and merges -/

/-- What is promised of every task of the run at every moment. -/
theorem Inv.properOf (h : Inv g plan gen w) (hinj : gen.Injective plan) {entry : Entry}
    (hentry : Assigned plan gen entry) :
    Proper entry.2 (w.ledger.marks entry.1.id) (w.evidenceOf entry.1.id) := by
  by_cases hfree : ∀ k ∈ w.coroutines, k.task.id ≠ entry.1.id
  · obtain ⟨hmarks, hevidence⟩ := h.unmarked entry hentry hfree
    rw [hmarks, hevidence]
    exact Proper.of_nil rfl
  · simp only [not_forall, not_not] at hfree
    obtain ⟨k, hk, heq⟩ := hfree
    obtain ⟨n, hn⟩ := List.mem_iff_getElem?.mp hk
    have hproper := h.proper n k hn
    rw [Coroutine.task, (h.spawned n k hn).2.eq_of_id hinj hentry heq] at hproper
    exact hproper

/-- No branch is merged before the task is implemented, nor, for a high-risk task, against a review; a
review is recorded as PASSED only if a reviewer of another provider succeeded. When `execute` has
returned from a run that was not asked to stop, the tasks built are those that succeeded, what
succeeded and writes was merged, and a high-risk task that was implemented and not reviewed is
recorded as PENDING. -/
structure Vetted (g : GoalRunner) (plan : Plan) (gen : Generated)
    (c : Conf Party Op Ret PyExn GoalRunner.Point Result World) : Prop where
  merged : ∀ entry, Assigned plan gen entry → (c.world.ledger.marks entry.1.id).integrations ≠ [] →
    (c.world.ledger.marks entry.1.id).implemented = true ∧
      (isHighRisk entry.2 = true → ∀ h ∈ (c.world.ledger.marks entry.1.id).reviews, h.succeeded = true)
  reviewed : ∀ entry, Assigned plan gen entry → ∀ e ∈ c.world.evidenceOf entry.1.id,
    e.isReview .passed = true → ∃ impl reviewer,
      (c.world.ledger.marks entry.1.id).implementation = some impl ∧ reviewer ∈ ModelRouter.roster ∧
        reviewer.provider ≠ providerOf impl.model ∧
          ∃ h ∈ (c.world.ledger.marks entry.1.id).reviews,
            h.model = reviewer.commandCodeId ∧ h.succeeded = true
  built : (∃ r, c.cur .execute = .ret (.inr r)) → c.world.ledger.accepted = false →
    ∀ entry, Assigned plan gen entry →
      (Done c.world entry.1.id ↔ ∃ e ∈ c.world.evidenceOf entry.1.id, e.isBuild = true)
  integrated : (∃ r, c.cur .execute = .ret (.inr r)) → c.world.ledger.accepted = false →
    ∀ entry, Assigned plan gen entry → Done c.world entry.1.id → entry.2.writeScope ≠ [] →
      true ∈ (c.world.ledger.marks entry.1.id).integrations
  pending : (∃ r, c.cur .execute = .ret (.inr r)) → c.world.ledger.accepted = false →
    ∀ entry, Assigned plan gen entry → isHighRisk entry.2 = true →
      (c.world.ledger.marks entry.1.id).implemented = true →
        (c.world.ledger.marks entry.1.id).reviews = [] →
          ∃ e ∈ c.world.evidenceOf entry.1.id, e.isReview .pending = true

/-- What a coroutine that has returned left of a task, or that nothing has happened to it. -/
theorem Fresh.left (hfresh : Fresh plan gen w) (hvalid : plan.Valid)
    (hsteps : (system g plan gen).Steps (begun g plan gen w) c)
    (hreturned : ∃ r, c.cur .execute = .ret (.inr r)) (haccepted : c.world.ledger.accepted = false)
    {entry : Entry} (hentry : Assigned plan gen entry) :
    ∃ s, View entry.1 s c.world ∧ (s = {} ∨ ∃ outcome, Concluded g entry.2 outcome s) := by
  obtain ⟨r, hreturned⟩ := hreturned
  rcases hfresh.returned hvalid hsteps hreturned with hstopped | ⟨outs, state, hsettling, _⟩
  · rw [hstopped.accepted] at haccepted
    cases haccepted
  · rcases hsettling.standing.seen hsettling.inv hsettling.results hfresh.injective hentry with
      ⟨_, _, o, s, _, _, _, hview, hconcluded⟩ | ⟨_, hview⟩
    · exact ⟨s, hview, .inr ⟨o, hconcluded⟩⟩
    · exact ⟨{}, hview, .inl rfl⟩

theorem View.done_iff {t : Task} {s : Share} (h : View t s w) : Done w t.id ↔ s.state = .succeeded := by
  constructor
  · rintro ⟨row, hread, hstate⟩
    cases hread.symm.trans h.row
    exact hstate
  · exact fun hstate => ⟨_, h.row, hstate⟩

/-- **Every run is vetted.** -/
theorem run_vetted (g : GoalRunner) (plan : Plan) (gen : Generated) (w : World)
    (c : Conf Party Op Ret PyExn GoalRunner.Point Result World) (hvalid : plan.Valid)
    (hworktrees : g.worktrees = true) (hfresh : Fresh plan gen w)
    (hsteps : (system g plan gen).Steps (begun g plan gen w) c) : Vetted g plan gen c := by
  have hinv := hfresh.inv hvalid hsteps
  refine ⟨fun entry hentry => (hinv.properOf hfresh.injective hentry).merged,
    fun entry hentry => (hinv.properOf hfresh.injective hentry).reviewed, ?_, ?_, ?_⟩
  · intro hreturned haccepted entry hentry
    obtain ⟨s, hview, hs⟩ := hfresh.left hvalid hsteps hreturned haccepted hentry
    rw [hview.done_iff, hview.evidence]
    rcases hs with rfl | ⟨outcome, hconcluded⟩
    · exact ⟨nofun, fun ⟨e, he, _⟩ => absurd he List.not_mem_nil⟩
    · exact hconcluded.built.symm
  · intro hreturned haccepted entry hentry hdone hscope
    obtain ⟨s, hview, hs⟩ := hfresh.left hvalid hsteps hreturned haccepted hentry
    have hstate := hview.done_iff.mp hdone
    rw [hview.marks]
    rcases hs with rfl | ⟨outcome, hconcluded⟩
    · cases hstate
    · exact hconcluded.merged hstate hworktrees hscope
  · intro hreturned haccepted entry hentry hrisk
    obtain ⟨s, hview, hs⟩ := hfresh.left hvalid hsteps hreturned haccepted hentry
    rw [hview.marks, hview.evidence]
    rcases hs with rfl | ⟨outcome, hconcluded⟩
    · nofun
    · exact hconcluded.pending hrisk

/-- A high-risk task that writes. -/
def risky : TaskNode := { id := "a", objective := "write", writeScope := ["a.py"], risk := .high }

/-- A run of a high-risk task whose attempts answer `result`. -/
def riskyRun (result : RunnerResult) : Conf Party Op Ret PyExn GoalRunner.Point Result World :=
  let g := { mockRunner with worktrees := true }
  let s : Surroundings := { runner := .ok result }
  (system g (single risky) ids).play
    (turns g s .execute 16 ++ turns g s (.coroutine 0) 90 ++ turns g s .execute 20)
    (begun g (single risky) ids { db := {} })

theorem run_vetted_risky : (riskyRun { success := true }).world.db.tasks.map Task.state = [.succeeded] ∧
    Vetted { mockRunner with worktrees := true } (single risky) ids (riskyRun { success := true }) :=
  ⟨by decide +kernel, run_vetted { mockRunner with worktrees := true } (single risky) ids { db := {} } _
    (show Plan.validateDag _ = [] by decide +kernel) rfl (Fresh.of_empty _) (System.play_steps _ _ _)⟩

/-- A high-risk task that could not be implemented is not reviewed, and no review of it is recorded. -/
theorem unimplemented_not_pending :
    (single risky).Valid ∧ Fresh (single risky) ids { db := {} } ∧ isHighRisk risky = true ∧
    (system { mockRunner with worktrees := true } (single risky) ids).Steps
      (begun { mockRunner with worktrees := true } (single risky) ids { db := {} })
      (riskyRun { success := false }) ∧
    (∃ r, (riskyRun { success := false }).cur .execute = .ret (.inr r)) ∧
    (riskyRun { success := false }).world.ledger.accepted = false ∧
    ((riskyRun { success := false }).world.ledger.marks ⟨"a"⟩).reviews.length = 0 ∧
    ((riskyRun { success := false }).world.evidenceOf ⟨"a"⟩).any (·.isReview .pending) = false := by
  refine ⟨show Plan.validateDag _ = [] by decide +kernel, Fresh.of_empty _, rfl, System.play_steps _ _ _, ?_, ?_,
    ?_, ?_⟩
  · exact System.cur_of_result (by decide +kernel)
  all_goals decide +kernel

end AtlasFlow.Reference
