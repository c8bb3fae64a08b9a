import AtlasFlow.Reference.Outcomes

/-!
# Recovering a run whose process died

`recover_run`, alone on the database that a crash has left. It closes the attempts, then the tasks, and
last it moves the run, so where it is stopped itself decides whether the next one finds anything to do.
-/

namespace AtlasFlow.Reference

open Concurrency
open Relation (ReflTransGen)
open SqlValues (text)

/-! ## `recover_run` -/

structure RecoveryReport where
  run : Run
  orphanedTasks : List TaskId := []
  orphanedAttempts : List AttemptId := []

/-- `_attempt_recovery_event`. -/
def attemptRecoveryEvent (attempt : Attempt) (projectId : String) : Program DomainEvent :=
  newEvent projectId attempt.runId .attemptFailed
    [("attempt_id", .str attempt.id.value), ("task_id", .str attempt.taskId.value),
      ("previous", .str (text attempt.state)), ("reason", .str "interrupted by process restart")]

/-- STARTING or RUNNING. -/
def orphaned (state : AttemptState) : Bool := state = .starting || state = .running

/-- The loop over the stored attempts. -/
def closeAttempts (run : Run) : List Attempt → Program (List AttemptId)
  | [] => return []
  | attempt :: rest => do
    if orphaned attempt.state then
      let event ← attemptRecoveryEvent attempt run.projectId
      let _ ← Persistence.recordAttemptTransition attempt .failed event
      return attempt.id :: (← closeAttempts run rest)
    else closeAttempts run rest

/-- The loop over the stored tasks. -/
def failTasks (run : Run) : List Task → Program (List TaskId)
  | [] => return []
  | task :: rest => do
    if task.state = .running then
      let _ ← Scheduler.failTask run.projectId task "interrupted by process restart"
      return task.id :: (← failTasks run rest)
    else failTasks run rest

/-- `recover_run`. -/
def recoverRun (runId : RunId) : Program (Option RecoveryReport) := do
  match ← call (.loadRun runId) with
  | none => return none
  | some run =>
    let attempts ← call (.loadAttempts runId)
    let orphanedAttempts ← closeAttempts run attempts
    let tasks ← call (.loadTasks runId)
    let orphanedTasks ← failTasks run tasks
    if orphanedTasks ≠ [] ∧ run.state = .running then
      let blocked ← Scheduler.moveRun run .blocked .stateChange
        [("reason", .str "recovered with interrupted tasks")]
      return some { run := blocked, orphanedTasks, orphanedAttempts }
    else return some { run, orphanedTasks, orphanedAttempts }

variable {g : GoalRunner} {runId : RunId} {db₀ db db' : Database} {w w' : World}

/-- A complete recovery takes one database to another. -/
def Recovers (g : GoalRunner) (runId : RunId) (db db' : Database) : Prop :=
  ∃ report w, Prog.Runs (exec g .execute) (recoverRun runId) { db } (.ok report) w ∧ w.db = db'

/-- A recovery that is cut off by a crash takes one database to another. -/
def Crashes (g : GoalRunner) (runId : RunId) (db db' : Database) : Prop :=
  ∃ w, Prog.Cut (exec g .execute) (recoverRun runId) { db } w ∧ w.db = db'

/-! ## What it does to the rows -/

/-- What becomes of a task of the run. -/
def Task.closed (runId : RunId) (t : Task) : Task :=
  if t.runId = runId ∧ t.state = .running then { t with state := .failed } else t

/-- What becomes of an attempt of the run. -/
def Attempt.closed (runId : RunId) (a : Attempt) : Attempt :=
  if a.runId = runId ∧ orphaned a.state = true then { a with state := .failed } else a

@[simp] theorem Task.closed_id (t : Task) : (t.closed runId).id = t.id := by
  unfold Task.closed
  split <;> rfl

@[simp] theorem Attempt.closed_id (a : Attempt) : (a.closed runId).id = a.id := by
  unfold Attempt.closed
  split <;> rfl

theorem Task.closed_closed (t : Task) : (t.closed runId).closed runId = t.closed runId := by
  unfold Task.closed
  split
  · exact if_neg fun h => TaskState.noConfusion h.2
  · rfl

theorem Attempt.closed_closed (a : Attempt) : (a.closed runId).closed runId = a.closed runId := by
  unfold Attempt.closed
  split
  · exact if_neg fun h => Bool.noConfusion h.2
  · rfl

/-- A closed task of the run is not RUNNING. -/
theorem Task.closed_state (t : Task) (hrun : (t.closed runId).runId = runId) :
    (t.closed runId).state ≠ .running := by
  unfold Task.closed at hrun ⊢
  split
  · nofun
  · next hnot =>
      rw [if_neg hnot] at hrun
      exact fun hstate => hnot ⟨hrun, hstate⟩

theorem Attempt.closed_state (a : Attempt) (hrun : (a.closed runId).runId = runId) :
    orphaned (a.closed runId).state = false := by
  unfold Attempt.closed at hrun ⊢
  split
  · rfl
  · next hnot =>
      rw [if_neg hnot] at hrun
      exact Bool.eq_false_iff.mpr fun hstate => hnot ⟨hrun, hstate⟩

/-- Some task of the run is RUNNING. -/
def Working (runId : RunId) (db : Database) : Prop := ∃ t ∈ db.tasksOf runId, t.state = .running

/-- The run has been moved to BLOCKED, after everything else. -/
structure Blocked (runId : RunId) (db₀ db : Database) : Prop where
  run : ∃ run, db₀.findRun runId = some run ∧ run.state = .running ∧
    db.findRun runId = some { run with state := .blocked }
  working : Working runId db₀

/-- What a recovery has made of the database wherever it is stopped. -/
structure Reconciling (runId : RunId) (db₀ db : Database) : Prop where
  tasks : Table.Partly Task.id (Task.closed runId) db₀.tasks db.tasks
  attempts : Table.Partly Attempt.id (Attempt.closed runId) db₀.attempts db.attempts
  run : db.findRun runId = db₀.findRun runId ∨ Blocked runId db₀ db

/-- What a complete recovery has made of the database. -/
structure Reconciled (runId : RunId) (db₀ db : Database) : Prop where
  tasks : Table.Mapped Task.id (Task.closed runId) db₀.tasks db.tasks
  attempts : Table.Mapped Attempt.id (Attempt.closed runId) db₀.attempts db.attempts
  run : ∃ run, db₀.findRun runId = some run ∧
    ((run.state = .running ∧ Working runId db₀ ∧ db.findRun runId = some { run with state := .blocked }) ∨
      ((run.state = .running → ¬Working runId db₀) ∧ db.findRun runId = some run))

/-- The contract of a recovery of `db₀`. -/
abbrev recovery (g : GoalRunner) (runId : RunId) (db₀ : Database) : Contract Op Ret World :=
  alone (exec g .execute) fun _ _ _ w' => Reconciling runId db₀ w'.db

section Calls

variable {α : Type} {Q : α → World → Prop} {F : PyExn → World → Prop}

/-- A call that leaves the database alone. -/
theorem wp_recover_idle {o : Op} {k : Ret o → Program α} (hw : Reconciling runId db₀ w.db)
    (hidle : ∀ r w', exec g .execute o w r = some w' → w' = w)
    (hrest : ∀ r, exec g .execute o w r = some w → wp (recovery g runId db₀) (k r) Q F w) :
    wp (recovery g runId db₀) (.call o k) Q F w := by
  apply wp_alone_call
  intro r w' hexec
  cases hidle r w' hexec
  exact ⟨hw, hrest r hexec⟩

theorem wp_recover_newEvent {projectId : String} {runId' : RunId} {type : EventType}
    {payload : List (String × Json)} {k : DomainEvent → Program α} (hw : Reconciling runId db₀ w.db)
    (hrest : ∀ event, wp (recovery g runId db₀) (k event) Q F w) :
    wp (recovery g runId db₀) ((newEvent projectId runId' type payload).bind k) Q F w := by
  unfold newEvent
  simp only [Prog.bind_eq, Prog.op_bind, Prog.call_bind, Prog.pure_eq, Prog.ret_bind]
  apply wp_recover_idle (o := .newEvent) hw fun r w' hexec => (Option.some.inj hexec).symm
  exact fun r _ => hrest _

/-- While attempts are closed, those of `rest` are still to come. -/
structure Closing (runId : RunId) (db₀ : Database) (rest : List Attempt) (db : Database) : Prop where
  attempts : Table.Rewriting Attempt.id (Attempt.closed runId) db₀.attempts rest db.attempts
  tasks : db.tasks = db₀.tasks
  runs : db.runs = db₀.runs

theorem Closing.reconciling (hkeyed : Table.Keyed Task.id db₀.tasks) {rest : List Attempt}
    (h : Closing runId db₀ rest db) : Reconciling runId db₀ db where
  tasks := by rw [h.tasks]; exact .refl hkeyed
  attempts := h.attempts.partly
  run := .inl (by rw [Database.findRun, h.runs, Database.findRun])

/-- **The loop over the attempts** closes those that are STARTING or RUNNING. -/
theorem wp_closeAttempts (hkeyed : Table.Keyed Task.id db₀.tasks) {run : Run} {attempts : List Attempt}
    (hstored : ∀ a ∈ attempts, a.runId = runId ∧ Table.lookup Attempt.id a.id db₀.attempts = some a)
    (h : Closing runId db₀ attempts w.db) :
    wp (recovery g runId db₀) (closeAttempts run attempts) (fun _ w => Closing runId db₀ [] w.db) F w := by
  induction attempts generalizing w with
  | nil => exact h
  | cons a rest ih =>
      have hrest : ∀ a ∈ rest, a.runId = runId ∧ Table.lookup Attempt.id a.id db₀.attempts = some a :=
        fun a ha => hstored a (List.mem_cons_of_mem _ ha)
      obtain ⟨hrun, hread⟩ := hstored a List.mem_cons_self
      unfold closeAttempts
      split
      · next horphaned =>
          have hclosed : a.closed runId = { a with state := .failed } := if_pos ⟨hrun, horphaned⟩
          have hallowed : a.state.canTransition .failed = true := by
            revert horphaned
            cases a.state <;> decide
          unfold attemptRecoveryEvent
          rw [Prog.bind_eq]
          apply wp_recover_newEvent (h.reconciling hkeyed)
          intro event
          unfold Persistence.recordAttemptTransition Persistence.guard
          rw [if_pos hallowed]
          simp only [Prog.bind_eq, Prog.op_bind, Prog.call_bind, Prog.pure_eq, Prog.ret_bind]
          apply wp_alone_call
          intro _ w' hexec
          cases hexec
          have hwritten : Closing runId db₀ rest
              ((w.db.upsertAttempt { a with state := .failed }).insertEvent event) := by
            refine ⟨?_, h.tasks, h.runs⟩
            have hwrite := h.attempts.write hread (Attempt.closed_id a)
            rw [hclosed] at hwrite
            exact hwrite
          refine ⟨hwritten.reconciling hkeyed, ?_⟩
          apply wp_recover_idle (o := .publish event) (hwritten.reconciling hkeyed)
            fun r w' hexec => (Option.some.inj hexec).symm
          intro _ _
          exact wp_seq (ih hrest hwritten) fun _ _ hw => hw
      · next hclosed =>
          refine ih hrest ⟨h.attempts.skip hread (if_neg fun hopen => hclosed hopen.2), h.tasks, h.runs⟩

/-- While tasks are failed, those of `rest` are still to come. -/
structure Failing (runId : RunId) (db₀ : Database) (rest : List Task) (db : Database) : Prop where
  tasks : Table.Rewriting Task.id (Task.closed runId) db₀.tasks rest db.tasks
  attempts : Table.Mapped Attempt.id (Attempt.closed runId) db₀.attempts db.attempts
  runs : db.runs = db₀.runs

theorem Failing.reconciling {rest : List Task} (h : Failing runId db₀ rest db) :
    Reconciling runId db₀ db where
  tasks := h.tasks.partly
  attempts := h.attempts.partly
  run := .inl (by rw [Database.findRun, h.runs, Database.findRun])

/-- **The loop over the tasks** fails those that are RUNNING. -/
theorem wp_failTasks {run : Run} {tasks : List Task}
    (hstored : ∀ t ∈ tasks, t.runId = runId ∧ Table.lookup Task.id t.id db₀.tasks = some t)
    (h : Failing runId db₀ tasks w.db) :
    wp (recovery g runId db₀) (failTasks run tasks)
      (fun ids w => (ids ≠ [] ↔ ∃ t ∈ tasks, t.state = .running) ∧ Failing runId db₀ [] w.db) F w := by
  induction tasks generalizing w with
  | nil => exact ⟨by simp, h⟩
  | cons t rest ih =>
      have hrest : ∀ t ∈ rest, t.runId = runId ∧ Table.lookup Task.id t.id db₀.tasks = some t :=
        fun t ht => hstored t (List.mem_cons_of_mem _ ht)
      obtain ⟨hrun, hread⟩ := hstored t List.mem_cons_self
      unfold failTasks
      split
      · next hrunning =>
          have hclosed : t.closed runId = { t with state := .failed } := if_pos ⟨hrun, hrunning⟩
          have hallowed : t.state.canTransition .failed = true := by
            rw [hrunning]
            rfl
          unfold Scheduler.failTask Scheduler.moveTask Scheduler.taskEvent
          rw [Prog.bind_eq, Prog.bind_eq, Prog.bind_assoc]
          apply wp_recover_newEvent h.reconciling
          intro event
          unfold Persistence.recordTaskTransition Persistence.guard
          rw [if_pos hallowed]
          simp only [Prog.bind_eq, Prog.op_bind, Prog.call_bind, Prog.pure_eq, Prog.ret_bind]
          apply wp_alone_call
          intro _ w' hexec
          cases hexec
          have hwritten : Failing runId db₀ rest
              ((w.db.upsertTask { t with state := .failed }).insertEvent event) := by
            refine ⟨?_, h.attempts, h.runs⟩
            have hwrite := h.tasks.write hread (Task.closed_id t)
            rw [hclosed] at hwrite
            exact hwrite
          refine ⟨hwritten.reconciling, ?_⟩
          apply wp_recover_idle (o := .publish event) hwritten.reconciling
            fun r w' hexec => (Option.some.inj hexec).symm
          intro _ _
          apply wp_seq (ih hrest hwritten)
          exact fun ids w hw => ⟨by simp [hrunning], hw.2⟩
      · next hidle =>
          refine wp_mono (ih hrest ⟨h.tasks.skip hread (if_neg fun hopen => hidle hopen.2), h.attempts, h.runs⟩)
            ?_ fun _ _ h => h
          exact fun ids w hw => ⟨hw.1.trans (by simp [hidle]), hw.2⟩

theorem loadAttempts_idle {party : Party} (w : World) (r : List Attempt) (w' : World)
    (h : exec g party (.loadAttempts runId) w r = some w') : w' = w := by
  simp only [exec] at h
  split at h <;> cases h
  rfl

/-- **What `recover_run` does**, wherever it is stopped, and when it is complete. -/
theorem wp_recoverRun (htasks : Table.Keyed Task.id db₀.tasks)
    (hattempts : Table.Keyed Attempt.id db₀.attempts) (hw : w.db = db₀) :
    wp (recovery g runId db₀) (recoverRun runId) (fun report w => match report with
      | none => w.db = db₀ ∧ db₀.findRun runId = none
      | some _ => Reconciled runId db₀ w.db) F w := by
  subst hw
  have hstart : Reconciling runId w.db w.db := ⟨.refl htasks, .refl hattempts, .inl rfl⟩
  unfold recoverRun
  simp only [Prog.bind_eq, Prog.op_bind, Prog.pure_eq]
  apply wp_recover_idle (o := .loadRun _) hstart fun r w' => loadRun_idle w r w'
  intro stored hexec
  have hstored : stored = w.db.findRun runId := by
    simp only [exec] at hexec
    split at hexec
    · next heq => exact heq
    · cases hexec
  subst hstored
  split
  · next hnone => exact ⟨rfl, hnone⟩
  · next run hrun =>
      apply wp_recover_idle (o := .loadAttempts _) hstart fun r w' => loadAttempts_idle w r w'
      intro attempts hexec
      have hperm : attempts.Perm (w.db.attemptsOf runId) := by
        simp only [exec] at hexec
        split at hexec
        · next hperm => exact hperm
        · cases hexec
      have hclosing : Closing runId w.db attempts w.db := by
        refine ⟨.start hattempts fun a ha => ?_, rfl, rfl⟩
        by_cases hown : a.runId = runId
        · exact .inr (hperm.mem_iff.mpr (List.mem_filter.mpr ⟨ha, decide_eq_true hown⟩))
        · exact .inl (if_neg fun h => hown h.1)
      apply wp_seq (wp_closeAttempts htasks (fun a ha => ?_) hclosing)
      swap
      · obtain ⟨hmem, hown⟩ := List.mem_filter.mp (hperm.mem_iff.mp ha)
        exact ⟨of_decide_eq_true hown, Table.lookup_of_mem hattempts hmem⟩
      intro ids w₁ hclosed
      apply wp_recover_idle (o := .loadTasks _) (hclosed.reconciling htasks) fun r w' => loadTasks_idle w₁ r w'
      intro tasks hexec
      have hperm : tasks.Perm (w.db.tasksOf runId) := by
        simp only [exec] at hexec
        split at hexec
        · next hperm =>
            rw [Database.tasksOf, hclosed.tasks] at hperm
            exact hperm
        · cases hexec
      have hfailing : Failing runId w.db tasks w₁.db := by
        refine ⟨?_, hclosed.attempts.mapped, hclosed.runs⟩
        rw [hclosed.tasks]
        refine .start htasks fun t ht => ?_
        by_cases hown : t.runId = runId
        · exact .inr (hperm.mem_iff.mpr (List.mem_filter.mpr ⟨ht, decide_eq_true hown⟩))
        · exact .inl (if_neg fun h => hown h.1)
      apply wp_seq (wp_failTasks (fun t ht => ?_) hfailing)
      swap
      · obtain ⟨hmem, hown⟩ := List.mem_filter.mp (hperm.mem_iff.mp ht)
        exact ⟨of_decide_eq_true hown, Table.lookup_of_mem htasks hmem⟩
      rintro orphans w₂ ⟨horphans, hfailed⟩
      have hworking : orphans ≠ [] ↔ Working runId w.db := by
        rw [horphans]
        exact exists_congr fun t => and_congr_left fun _ => hperm.mem_iff
      have hread : w₂.db.findRun runId = some run := by
        rw [Database.findRun, hfailed.runs]
        exact hrun
      split
      · next hblock =>
          -- the last write
          have hallowed : run.state.canTransition .blocked = true := by
            rw [hblock.2]
            rfl
          unfold Scheduler.moveRun Scheduler.runEvent
          rw [Prog.bind_eq, Prog.bind_assoc]
          apply wp_recover_newEvent hfailed.reconciling
          intro event
          unfold Persistence.recordRunTransition Persistence.guard
          rw [if_pos hallowed]
          simp only [Prog.bind_eq, Prog.op_bind, Prog.call_bind, Prog.pure_eq, Prog.ret_bind]
          apply wp_alone_call
          intro _ w' hexec
          cases hexec
          have hid : run.id = runId := (Table.mem_of_lookup hrun).2
          have hblocked : ((w₂.db.upsertRun { run with state := .blocked }).insertEvent event).findRun runId =
              some { run with state := .blocked } := by
            rw [← hid]
            exact Database.findRun_commit { run with state := .blocked } event w₂.db
          have hlast : Reconciling runId w.db
              ((w₂.db.upsertRun { run with state := .blocked }).insertEvent event) :=
            ⟨hfailed.tasks.partly, hfailed.attempts.partly,
              .inr ⟨⟨run, hrun, hblock.2, hblocked⟩, hworking.mp hblock.1⟩⟩
          refine ⟨hlast, ?_⟩
          apply wp_recover_idle (o := .publish event) hlast fun r w' hexec => (Option.some.inj hexec).symm
          intro _ _
          exact ⟨hfailed.tasks.mapped, hfailed.attempts, run, hrun, .inl ⟨hblock.2, hworking.mp hblock.1, hblocked⟩⟩
      · next hstay =>
          refine ⟨hfailed.tasks.mapped, hfailed.attempts, run, hrun, .inr ⟨fun hrunning hwork => ?_, hread⟩⟩
          exact hstay ⟨hworking.mpr hwork, hrunning⟩

end Calls

/-! ## Recoveries, complete and cut off -/

/-- A complete recovery of a run that is stored. -/
theorem Recovers.reconciled (h : Recovers g runId db₀ db) (htasks : Table.Keyed Task.id db₀.tasks)
    (hattempts : Table.Keyed Attempt.id db₀.attempts) :
    db = db₀ ∧ db₀.findRun runId = none ∨ Reconciled runId db₀ db := by
  obtain ⟨report, w, hruns, rfl⟩ := h
  have hpost := (wp_runs (wp_recoverRun (F := fun _ _ => True) htasks hattempts rfl) hruns).1 report rfl
  cases report with
  | none => exact .inl hpost
  | some report => exact .inr hpost

/-- A recovery that was cut off. -/
theorem Crashes.reconciling (h : Crashes g runId db₀ db) (htasks : Table.Keyed Task.id db₀.tasks)
    (hattempts : Table.Keyed Attempt.id db₀.attempts) : Reconciling runId db₀ db := by
  obtain ⟨w, hcut, rfl⟩ := h
  have hstart : Reconciling runId db₀ db₀ := ⟨.refl htasks, .refl hattempts, .inl rfl⟩
  exact wp_cut (I := fun w => Reconciling runId db₀ w.db)
    (wp_recoverRun (F := fun _ _ => True) htasks hattempts rfl) hstart hcut

theorem Working.of_partly (h : Working runId db)
    (htasks : Table.Partly Task.id (Task.closed runId) db₀.tasks db.tasks) : Working runId db₀ := by
  obtain ⟨t, ht, hrunning⟩ := h
  obtain ⟨hmem, hown⟩ := List.mem_filter.mp ht
  obtain ⟨t₀, ht₀, rfl | rfl⟩ := htasks.of_mem hmem
  · exact ⟨t, List.mem_filter.mpr ⟨ht₀, hown⟩, hrunning⟩
  · exact absurd hrunning (Task.closed_state t₀ (of_decide_eq_true hown))

/-- A run that has been moved to BLOCKED is not RUNNING. -/
theorem Blocked.not_running (h : Blocked runId db₀ db) {run : Run} (hrun : db.findRun runId = some run) :
    run.state ≠ .running := by
  obtain ⟨run₀, _, _, hblocked⟩ := h.run
  rw [hrun] at hblocked
  cases hblocked
  nofun

/-- One recovery after the other is one recovery. -/
theorem Reconciling.trans {db₁ : Database} (h : Reconciling runId db₀ db₁) (h' : Reconciling runId db₁ db) :
    Reconciling runId db₀ db where
  tasks := h.tasks.trans Task.closed_closed h'.tasks
  attempts := h.attempts.trans Attempt.closed_closed h'.attempts
  run := by
    rcases h'.run with hsame' | hblocked'
    · rcases h.run with hsame | hblocked
      · exact .inl (hsame'.trans hsame)
      · obtain ⟨run, hrun, hrunning, hread⟩ := hblocked.run
        exact .inr ⟨⟨run, hrun, hrunning, hsame'.trans hread⟩, hblocked.working⟩
    · obtain ⟨run, hrun, hrunning, hread⟩ := hblocked'.run
      rcases h.run with hsame | hblocked
      · exact .inr ⟨⟨run, hsame.symm.trans hrun, hrunning, hread⟩, hblocked'.working.of_partly h.tasks⟩
      · exact absurd hrunning (hblocked.not_running hrun)

/-- Any number of recoveries, all cut off. -/
theorem reconciling_of_crashes {db₁ : Database} (h : ReflTransGen (Crashes g runId) db₀ db₁)
    (htasks : Table.Keyed Task.id db₀.tasks) (hattempts : Table.Keyed Attempt.id db₀.attempts) :
    Reconciling runId db₀ db₁ := by
  induction h with
  | refl => exact ⟨.refl htasks, .refl hattempts, .inl rfl⟩
  | tail _ hlast ih => exact ih.trans (hlast.reconciling ih.tasks.keyed ih.attempts.keyed)

/-- No attempt of the run is STARTING or RUNNING, and no task of it RUNNING. -/
structure Quiescent (runId : RunId) (db : Database) : Prop where
  attempts : ∀ a ∈ db.attemptsOf runId, orphaned a.state = false
  tasks : ∀ t ∈ db.tasksOf runId, t.state ≠ .running

theorem Reconciled.quiescent (htasks : Table.Mapped Task.id (Task.closed runId) db₀.tasks db.tasks)
    (hattempts : Table.Mapped Attempt.id (Attempt.closed runId) db₀.attempts db.attempts) :
    Quiescent runId db where
  attempts a ha := by
    obtain ⟨hmem, hown⟩ := List.mem_filter.mp ha
    obtain ⟨a₀, _, rfl⟩ := hattempts.of_mem hmem
    exact Attempt.closed_state a₀ (of_decide_eq_true hown)
  tasks t ht := by
    obtain ⟨hmem, hown⟩ := List.mem_filter.mp ht
    obtain ⟨t₀, _, rfl⟩ := htasks.of_mem hmem
    exact Task.closed_state t₀ (of_decide_eq_true hown)

theorem closeAttempts_nil {run : Run} {attempts : List Attempt}
    (h : ∀ a ∈ attempts, orphaned a.state = false) : closeAttempts run attempts = .ret [] := by
  induction attempts with
  | nil => rfl
  | cons a rest ih =>
      unfold closeAttempts
      rw [if_neg (by simp [h a List.mem_cons_self])]
      exact ih fun a ha => h a (List.mem_cons_of_mem _ ha)

theorem failTasks_nil {run : Run} {tasks : List Task} (h : ∀ t ∈ tasks, t.state ≠ .running) :
    failTasks run tasks = .ret [] := by
  induction tasks with
  | nil => rfl
  | cons t rest ih =>
      unfold failTasks
      rw [if_neg (h t List.mem_cons_self)]
      exact ih fun t ht => h t (List.mem_cons_of_mem _ ht)

/-- **A recovery that finds nothing open changes nothing.** -/
theorem Quiescent.recovers (h : Quiescent runId db) (hrecovers : Recovers g runId db db') : db' = db := by
  obtain ⟨report, w, hruns, rfl⟩ := hrecovers
  unfold recoverRun at hruns
  simp only [Prog.bind_eq, Prog.op_bind, Prog.pure_eq, Prog.runs_call] at hruns
  obtain ⟨stored, w₁, hload, hruns⟩ := hruns
  cases loadRun_idle _ _ _ hload
  cases stored with
  | none =>
      cases hruns
      rfl
  | some run =>
      simp only [Prog.runs_call] at hruns
      obtain ⟨attempts, w₂, hload, hruns⟩ := hruns
      cases loadAttempts_idle _ _ _ hload
      have hattempts : ∀ a ∈ attempts, orphaned a.state = false := by
        simp only [exec, Option.ite_none_right_eq_some] at hload
        exact fun a ha => h.attempts a (hload.1.mem_iff.mp ha)
      rw [closeAttempts_nil hattempts] at hruns
      simp only [Prog.ret_bind, Prog.runs_call] at hruns
      obtain ⟨tasks, w₃, hload, hruns⟩ := hruns
      cases loadTasks_idle _ _ _ hload
      have htasks : ∀ t ∈ tasks, t.state ≠ .running := by
        simp only [exec, Option.ite_none_right_eq_some] at hload
        exact fun t ht => h.tasks t (hload.1.mem_iff.mp ht)
      rw [failTasks_nil htasks] at hruns
      simp at hruns
      rw [hruns.2]

/-! ## After a crash of `execute` -/

/-- Work of the run was interrupted: a task of it is RUNNING, or an attempt STARTING or RUNNING. -/
def Interrupted (runId : RunId) (db : Database) : Prop :=
  Working runId db ∨ ∃ a ∈ db.attemptsOf runId, orphaned a.state = true

/-- What a crash of `execute` leaves: where work was interrupted, the run is RUNNING. -/
structure Crashed (runId : RunId) (db : Database) : Prop where
  tasks : Table.Keyed Task.id db.tasks
  attempts : Table.Keyed Attempt.id db.attempts
  driven : Interrupted runId db → ∃ run, db.findRun runId = some run ∧ run.state = .running

variable {plan : Plan} {gen : Generated} {w₀ : World}
  {c : Conf Party Op Ret PyExn GoalRunner.Point Result World}

/-- **Every state of every run is one that a crash may leave.** -/
theorem Fresh.crashed (h : Fresh plan gen w₀) (hsteps : (system g plan gen).Steps (begun g plan gen w₀) c) :
    Crashed gen.runId c.world.db := by
  have hattempts : Table.Keyed Attempt.id c.world.db.attempts := by
    refine hsteps.keeps _ (P := fun w => Table.Keyed Attempt.id w.db.attempts) ?_ h.numbered
    intro party o w r w' hexec hkeyed
    rcases exec_attempts hexec with heq | ⟨attempt, heq⟩
    · rw [heq]
      exact hkeyed
    · rw [heq]
      exact Table.keyed_upsert hkeyed attempt
  by_cases hvalid : plan.Valid
  · have hinv := h.inv hvalid hsteps
    refine ⟨hinv.keyed, hattempts, fun hinterrupted => ?_⟩
    have hbusy : ¬Rested c.world := by
      intro hrested
      rcases hinterrupted with ⟨t, ht, hrunning⟩ | ⟨a, ha, hopen⟩
      · obtain ⟨hmem, hown⟩ := List.mem_filter.mp ht
        obtain ⟨n, k, hk, hnot, _⟩ := hinv.working t hmem (of_decide_eq_true hown) hrunning
        exact hnot (hrested n k hk)
      · obtain ⟨hmem, hown⟩ := List.mem_filter.mp ha
        obtain ⟨entry, hentry, htask⟩ := hinv.owned a hmem (of_decide_eq_true hown)
        have hstate : a.state.isTerminal = false := by
          revert hopen
          cases a.state <;> decide
        obtain ⟨n, k, hlive, _⟩ := hinv.closed a hmem hstate entry hentry htask
        exact hrested.idle n k hlive
    exact ⟨_, hinv.driven hbusy, rfl⟩
  · -- nothing of the run is stored
    have hworld := h.rejected hvalid hsteps
    rw [hworld] at hattempts ⊢
    refine ⟨h.keyed, hattempts, fun hinterrupted => ?_⟩
    rcases hinterrupted with ⟨t, ht, _⟩ | ⟨a, ha, _⟩
    · obtain ⟨hmem, hown⟩ := List.mem_filter.mp ht
      exact absurd (of_decide_eq_true hown) (h.tasks t hmem).1
    · obtain ⟨hmem, hown⟩ := List.mem_filter.mp ha
      exact absurd (of_decide_eq_true hown) (h.attempts a hmem).1

/-- Two databases hold the same run, tasks and attempts. -/
structure Agree (runId : RunId) (db db' : Database) : Prop where
  run : db'.findRun runId = db.findRun runId
  tasks : ∀ id, db'.findTask id = db.findTask id
  attempts : ∀ id, Table.lookup Attempt.id id db'.attempts = Table.lookup Attempt.id id db.attempts

/-- `db` is what becomes of `db₀` when it is recovered: nothing of the run is open, the run is not RUNNING, and
BLOCKED if work was interrupted; one uninterrupted recovery of `db₀` leaves the same, and one more recovery
changes nothing. -/
structure Reconciles (g : GoalRunner) (runId : RunId) (db₀ db : Database) : Prop where
  quiescent : Quiescent runId db
  run : ∀ run, db.findRun runId = some run →
    run.state ≠ .running ∧ (Interrupted runId db₀ → run.state = .blocked)
  same : ∀ db', Recovers g runId db₀ db' → Agree runId db' db
  idempotent : ∀ db', Recovers g runId db db' → db' = db

/-- What is recovered is not RUNNING, or some task of it is. -/
def Recoverable (runId : RunId) (db : Database) : Prop :=
  ∀ run, db.findRun runId = some run → run.state = .running → Working runId db

variable {db₁ db₂ : Database}

/-- A database that was not interrupted is not changed. -/
theorem Reconciling.agree (h : Reconciling runId db₀ db) (hquiet : ¬Interrupted runId db₀) :
    Agree runId db₀ db where
  run := h.run.resolve_right fun hblocked => hquiet (.inl hblocked.working)
  tasks := by
    refine h.tasks.unchanged fun t ht => if_neg fun hopen => hquiet (.inl ?_)
    exact ⟨t, List.mem_filter.mpr ⟨ht, decide_eq_true hopen.1⟩, hopen.2⟩
  attempts := by
    refine h.attempts.unchanged fun a ha => if_neg fun hopen => hquiet (.inr ?_)
    exact ⟨a, List.mem_filter.mpr ⟨ha, decide_eq_true hopen.1⟩, hopen.2⟩

/-- The last recovery settles what the crash left. -/
theorem Crashed.reconciles (h : Crashed runId db₀) (hcrashes : Reconciling runId db₀ db₁)
    (hlast : Reconciled runId db₁ db₂) (hrecoverable : Recoverable runId db₁) : Reconciles g runId db₀ db₂ := by
  have htasks := hcrashes.tasks.mapped_trans Task.closed_closed hlast.tasks
  have hattempts := hcrashes.attempts.mapped_trans Attempt.closed_closed hlast.attempts
  have hquiescent : Quiescent runId db₂ := Reconciled.quiescent htasks hattempts
  obtain ⟨run₁, hrun₁, hmoved⟩ := hlast.run
  -- where the run is not moved, it is not RUNNING
  have hkept : ¬(run₁.state = .running ∧ Working runId db₁) → run₁.state ≠ .running :=
    fun hnot hrunning => hnot ⟨hrunning, hrecoverable run₁ hrun₁ hrunning⟩
  refine ⟨hquiescent, fun run hrun => ?_, fun db' hrecovers => ?_, fun db' => hquiescent.recovers⟩
  · rcases hmoved with ⟨_, _, hblocked⟩ | ⟨hnot, hread⟩
    · rw [hrun] at hblocked
      cases hblocked
      exact ⟨nofun, fun _ => rfl⟩
    · rw [hrun] at hread
      cases hread
      have hstopped := hkept fun hwork => hnot hwork.1 hwork.2
      refine ⟨hstopped, fun hinterrupted => ?_⟩
      obtain ⟨run₀, hrun₀, hrunning⟩ := h.driven hinterrupted
      rcases hcrashes.run with hsame | hblocked
      · rw [hrun₁, hrun₀] at hsame
        cases hsame
        exact absurd hrunning hstopped
      · obtain ⟨run₀, _, _, hread⟩ := hblocked.run
        rw [hrun₁] at hread
        cases hread
        rfl
  · rcases hrecovers.reconciled h.tasks h.attempts with ⟨_, hnone⟩ | hwhole
    · -- a run that is stored later was stored at the crash
      rcases hcrashes.run with hsame | hblocked
      · rw [hrun₁, hnone] at hsame
        cases hsame
      · obtain ⟨run₀, hrun₀, _⟩ := hblocked.run
        rw [hnone] at hrun₀
        cases hrun₀
    · refine ⟨?_, fun id => ?_, fun id => ?_⟩
      · obtain ⟨run₀, hrun₀, hmoved₀⟩ := hwhole.run
        rcases hcrashes.run with hsame | hblocked
        · rw [hrun₁, hrun₀] at hsame
          cases hsame
          rcases hmoved with ⟨hrunning, hworking, hread⟩ | ⟨hnot, hread⟩
          · rcases hmoved₀ with ⟨_, _, hread₀⟩ | ⟨hnot₀, _⟩
            · exact hread.trans hread₀.symm
            · exact absurd (hworking.of_partly hcrashes.tasks) (hnot₀ hrunning)
          · rcases hmoved₀ with ⟨hrunning, _⟩ | ⟨_, hread₀⟩
            · exact absurd hrunning (hkept fun hwork => hnot hwork.1 hwork.2)
            · exact hread.trans hread₀.symm
        · -- the run was moved by a recovery that was cut off
          have hstopped := hblocked.not_running hrun₁
          obtain ⟨run, hrun, hrunning, hread₁⟩ := hblocked.run
          rcases hmoved with ⟨hrunning₁, _⟩ | ⟨_, hread⟩
          · exact absurd hrunning₁ hstopped
          · rcases hmoved₀ with ⟨_, _, hread₀⟩ | ⟨hnot₀, _⟩
            · rw [hread, hread₀, ← hrun₁, hread₁, Option.some.inj (hrun₀.symm.trans hrun)]
            · rw [hrun₀] at hrun
              cases hrun
              exact absurd hblocked.working (hnot₀ hrunning)
      · exact (htasks.read id).trans (hwhole.tasks.read id).symm
      · exact (hattempts.read id).trans (hwhole.attempts.read id).symm

/-- Where no run is stored, there was nothing to reconcile. -/
theorem Crashed.unstored (h : Crashed runId db₀) (hcrashes : Reconciling runId db₀ db₁)
    (hnone : db₁.findRun runId = none) : Reconciles g runId db₀ db₁ := by
  have hnone₀ : db₀.findRun runId = none := by
    rcases hcrashes.run with hsame | hblocked
    · exact hsame.symm.trans hnone
    · obtain ⟨_, _, _, hread⟩ := hblocked.run
      rw [hnone] at hread
      cases hread
  have hquiet : ¬Interrupted runId db₀ := by
    intro hinterrupted
    obtain ⟨run, hrun, _⟩ := h.driven hinterrupted
    rw [hnone₀] at hrun
    cases hrun
  have hquiescent : Quiescent runId db₁ := by
    constructor
    · intro a ha
      obtain ⟨hmem, hown⟩ := List.mem_filter.mp ha
      obtain ⟨a₀, ha₀, rfl | rfl⟩ := hcrashes.attempts.of_mem hmem
      · exact Bool.eq_false_iff.mpr fun hopen => hquiet (.inr ⟨a, List.mem_filter.mpr ⟨ha₀, hown⟩, hopen⟩)
      · exact Attempt.closed_state a₀ (of_decide_eq_true hown)
    · exact fun t ht hrunning => hquiet (.inl (Working.of_partly ⟨t, ht, hrunning⟩ hcrashes.tasks))
  refine ⟨hquiescent, fun run hrun => ?_, fun db' hrecovers => ?_, fun db' => hquiescent.recovers⟩
  · rw [hnone] at hrun
    cases hrun
  · rcases hrecovers.reconciled h.tasks h.attempts with ⟨rfl, _⟩ | hwhole
    · exact hcrashes.agree hquiet
    · obtain ⟨run, hrun, _⟩ := hwhole.run
      rw [hnone₀] at hrun
      cases hrun

/-- **What a crash of `execute` left is reconciled by the recovery that completes** exactly if, when this one
starts, the run is not RUNNING or some task of it is. -/
theorem recovery_reconciles_iff (g : GoalRunner) (plan : Plan) (gen : Generated) (w₀ : World)
    (c : Conf Party Op Ret PyExn GoalRunner.Point Result World) (db₁ db₂ : Database)
    (hfresh : Fresh plan gen w₀) (hsteps : (system g plan gen).Steps (begun g plan gen w₀) c)
    (hcrashes : ReflTransGen (Crashes g gen.runId) c.world.db db₁)
    (hrecovers : Recovers g gen.runId db₁ db₂) :
    Reconciles g gen.runId c.world.db db₂ ↔ Recoverable gen.runId db₁ := by
  have hcrashed := hfresh.crashed hsteps
  have hreconciling := reconciling_of_crashes hcrashes hcrashed.tasks hcrashed.attempts
  rcases hrecovers.reconciled hreconciling.tasks.keyed hreconciling.attempts.keyed with ⟨rfl, hnone⟩ | hlast
  · -- nothing of the run is stored
    refine iff_of_true (hcrashed.unstored hreconciling hnone) fun run hrun => ?_
    rw [hnone] at hrun
    cases hrun
  · constructor
    · intro hreconciles run hrun hrunning
      by_contra hidle
      obtain ⟨run₁, hrun₁, ⟨_, hworking, _⟩ | ⟨_, hread⟩⟩ := hlast.run
      · exact hidle hworking
      · rw [hrun] at hrun₁
        cases hrun₁
        exact (hreconciles.run run hread).1 hrunning
    · exact hcrashed.reconciles hreconciling hlast

/-- A run whose process dies while an attempt is on its way. -/
def attemptCrash : Conf Party Op Ret PyExn GoalRunner.Point Result World :=
  (system mockRunner (single { id := "a", objective := "write" }) ids).play
    (turns mockRunner {} .execute 16 ++ turns mockRunner {} (.coroutine 0) 21)
    (begun mockRunner (single { id := "a", objective := "write" }) ids { db := {} })

/-- Its recovery, cut off after `n` calls. -/
def recoveredFor (n : Nat) : World :=
  Prog.runFor (exec mockRunner .execute) (answer mockRunner {} 0) n (recoverRun ids.runId)
    { db := attemptCrash.world.db }

/-- A complete recovery. -/
def recovered (db : Database) : Option (Except PyExn (Option RecoveryReport) × World) :=
  Prog.run (exec mockRunner .execute) (answer mockRunner {} 0) (recoverRun ids.runId) { db }

theorem exists_recovers (db : Database) (p : Database → Bool)
    (h : (recovered db).any (fun x => x.1.toBool && p x.2.db) = true) :
    ∃ db', Recovers mockRunner ids.runId db db' ∧ p db' = true := by
  cases hrun : recovered db with
  | none =>
      rw [hrun] at h
      cases h
  | some x =>
      obtain ⟨out, w⟩ := x
      rw [hrun] at h
      cases out with
      | error e => cases h
      | ok report => exact ⟨w.db, ⟨report, w, Prog.runs_of_run hrun, rfl⟩, h⟩

/-- The first recovery is cut off when it has closed the attempt. -/
theorem recovery_reconciles_iff_attempt : ∃ db, Recovers mockRunner ids.runId (recoveredFor 5).db db ∧
    (Reconciles mockRunner ids.runId attemptCrash.world.db db ↔ Recoverable ids.runId (recoveredFor 5).db) := by
  obtain ⟨db, hrecovers, _⟩ := exists_recovers (recoveredFor 5).db (fun _ => true) (by decide +kernel)
  refine ⟨db, hrecovers, recovery_reconciles_iff mockRunner (single { id := "a", objective := "write" }) ids
    { db := {} } attemptCrash _ db (Fresh.of_empty _) (System.play_steps _ _ _) (.single ?_) hrecovers⟩
  exact ⟨recoveredFor 5, Prog.cut_runFor _ _ _, rfl⟩

/-- The first recovery is cut off when it has failed the task: the run stays RUNNING. -/
theorem recovery_left_running : ∃ db,
    (system mockRunner (single { id := "a", objective := "write" }) ids).Steps
      (begun mockRunner (single { id := "a", objective := "write" }) ids { db := {} }) attemptCrash ∧
    Crashes mockRunner ids.runId attemptCrash.world.db (recoveredFor 9).db ∧
    Recovers mockRunner ids.runId (recoveredFor 9).db db ∧
    ¬Reconciles mockRunner ids.runId attemptCrash.world.db db := by
  obtain ⟨db, hrecovers, hstate⟩ := exists_recovers (recoveredFor 9).db
    (fun db => (db.findRun ids.runId).map Run.state = some .running) (by decide +kernel)
  refine ⟨db, System.play_steps _ _ _, ⟨recoveredFor 9, Prog.cut_runFor _ _ _, rfl⟩, hrecovers, fun hreconciles => ?_⟩
  obtain ⟨run, hrun, hrunning⟩ := Option.map_eq_some_iff.mp (of_decide_eq_true hstate)
  exact (hreconciles.run run hrun).1 hrunning

end AtlasFlow.Reference
