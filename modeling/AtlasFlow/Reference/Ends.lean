import AtlasFlow.Reference.Writes

/-!
# How `execute` ends

Every exit of the loop leads to one of three ends: the run is stopped (`Stopped`), it is settled by what
its tasks have become (`Settled`), or `execute` raises (`Failed`).
-/

namespace AtlasFlow.Reference

open Concurrency

/-! ## Assertions of `execute` while no coroutine is live -/

section Alone

variable {g : GoalRunner} {plan : Plan} {gen : Generated} {w w' : World}

/-- An assertion that only requests interfere with. -/
structure Alone (g : GoalRunner) (plan : Plan) (gen : Generated) (P : World → Prop) : Prop where
  inv : ∀ w, P w → Inv g plan gen w
  rested : ∀ w, P w → Rested w
  ask : ∀ w w', P w → Ask g plan gen w w' → P w'

namespace Alone

variable {P P' : World → Prop} {α : Type} {Q : α → World → Prop} {F : PyExn → World → Prop}

theorem moves (h : Alone g plan gen P) (party : Party) (w w' : World) (hparty : party ≠ .execute)
    (hstep : Moves g plan gen party w w') (hw : P w) : P w' := by
  cases party with
  | execute => exact absurd rfl hparty
  | coroutine n =>
      rcases hstep with rfl | ⟨c, hwork⟩
      · exact hw
      · exact absurd hwork.live ((h.rested w hw).idle n c)
  | cancelRun n =>
      rcases hstep with rfl | hask
      · exact hw
      · exact h.ask w w' hw hask

/-- The rule for a call of `execute`. -/
theorem wp_own (h : Alone g plan gen P) {o : Op} {k : Ret o → Program α} (hw : P w)
    (hcall : ∀ w r w', P w → exec g .execute o w r = some w' →
      Moves g plan gen .execute w w' ∧ wp (driver g plan gen) (k r) Q F w') :
    wp (driver g plan gen) (.call o k) Q F w :=
  wp_call_step P hw h.moves hcall

/-- The rule for a call of `execute` that changes nothing. -/
theorem wp_idle (h : Alone g plan gen P) {o : Op} {k : Ret o → Program α} (hw : P w)
    (hidle : ∀ w r w', exec g .execute o w r = some w' → w' = w)
    (hrest : ∀ w r, P w → exec g .execute o w r = some w → wp (driver g plan gen) (k r) Q F w) :
    wp (driver g plan gen) (.call o k) Q F w :=
  wp_read P hw h.moves hidle hrest

/-- The rule for a call that leaves the tasks alone. -/
theorem wp_quiet (h : Alone g plan gen P) {o : Op} {k : Ret o → Program α} (hw : P w)
    (hquiet : ∀ w r w', P w → exec g .execute o w r = some w' →
      Quiet w w' ∧ wp (driver g plan gen) (k r) Q F w') :
    wp (driver g plan gen) (.call o k) Q F w := by
  apply h.wp_own hw
  intro w r w' hw hexec
  obtain ⟨hq, hrest⟩ := hquiet w r w' hw hexec
  exact ⟨.inr (hq.drive (h.inv w hw) (h.rested w hw)), hrest⟩

/-- `_run_event` and `_task_event` only generate ids. -/
theorem wp_newEvent (h : Alone g plan gen P) {projectId : String} {runId : RunId} {type : EventType}
    {payload : List (String × Json)} {k : DomainEvent → Program α} (hw : P w)
    (hrest : ∀ event w, P w → wp (driver g plan gen) (k event) Q F w) :
    wp (driver g plan gen) ((newEvent projectId runId type payload).bind k) Q F w := by
  unfold newEvent
  simp only [Prog.bind_eq, Prog.op_bind, Prog.call_bind, Prog.pure_eq, Prog.ret_bind]
  apply h.wp_idle (o := .newEvent) hw fun w r w' hexec => (Option.some.inj hexec).symm
  intro w r hw _
  exact hrest _ w hw

/-- **A transition of the run** takes one assertion to another. -/
theorem wp_moveRun (h : Alone g plan gen P) (h' : Alone g plan gen P') {run : Run} {toState : RunState}
    {type : EventType} {extra : List (String × Json)} {k : Run → Program α}
    (hallowed : run.state.canTransition toState = true) (hw : P w)
    (hcommit : ∀ event w, P w →
      P' { w with db := (w.db.upsertRun { run with state := toState }).insertEvent event })
    (hrest : ∀ w, P' w → wp (driver g plan gen) (k { run with state := toState }) Q F w) :
    wp (driver g plan gen) ((Scheduler.moveRun run toState type extra).bind k) Q F w := by
  unfold Scheduler.moveRun Scheduler.runEvent
  rw [Prog.bind_eq, Prog.bind_assoc]
  apply h.wp_newEvent hw
  intro event w hw
  unfold Persistence.recordRunTransition Persistence.guard
  rw [if_pos hallowed]
  simp only [Prog.bind_eq, Prog.op_bind, Prog.call_bind, Prog.pure_eq, Prog.ret_bind]
  apply h.wp_quiet hw
  intro w _ w' hw hexec
  cases hexec
  refine ⟨Quiet.commitRun _ _ _, ?_⟩
  apply h'.wp_idle (o := .publish event) (hcommit event w hw) fun w r w' hexec => (Option.some.inj hexec).symm
  intro w _ hw _
  exact hrest w hw

/-- **A transition of a task** that is not stored as succeeded. -/
theorem wp_cancelTask (h : Alone g plan gen P) (h' : Alone g plan gen P') {projectId reason : String}
    {task : Task} {k : Task → Program α} (hallowed : task.state.canTransition .cancelled = true) (hw : P w)
    (hassigned : ∃ entry, Assigned plan gen entry ∧ task = { entry.1 with state := task.state })
    (hopen : ∀ w, P w → ¬Done w task.id)
    (hcommit : ∀ w w', P w → Wrote { task with state := .cancelled } w w' → P' w')
    (hrest : ∀ w, P' w → wp (driver g plan gen) (k { task with state := .cancelled }) Q F w) :
    wp (driver g plan gen) ((Scheduler.cancelTask projectId task reason).bind k) Q F w := by
  unfold Scheduler.cancelTask Scheduler.moveTask Scheduler.taskEvent
  rw [Prog.bind_eq, Prog.bind_assoc]
  apply h.wp_newEvent hw
  intro event w hw
  unfold Persistence.recordTaskTransition Persistence.guard
  rw [if_pos hallowed]
  simp only [Prog.bind_eq, Prog.op_bind, Prog.call_bind, Prog.pure_eq, Prog.ret_bind]
  apply h.wp_own hw
  intro w _ w' hw hexec
  cases hexec
  have hwrote := Wrote.commitTask w { task with state := .cancelled } event
  have hrow : ∃ entry, Assigned plan gen entry ∧
      { task with state := TaskState.cancelled } = { entry.1 with state := TaskState.cancelled } := by
    obtain ⟨entry, hentry, heq⟩ := hassigned
    exact ⟨entry, hentry, by rw [heq]⟩
  refine ⟨.inr (hwrote.drive (h.inv w hw) (h.rested w hw) hrow (hopen w hw) nofun), ?_⟩
  apply h'.wp_idle (o := .publish event) (hcommit w _ hw hwrote)
    fun w r w' hexec => (Option.some.inj hexec).symm
  intro w _ hw _
  exact hrest w hw

end Alone

end Alone

/-! ## A run that is stopped -/

section Stop

variable {g : GoalRunner} {plan : Plan} {gen : Generated} {w w' : World} {outs : List TaskOutcome}

/-- No coroutine is live and a request was accepted; nothing raised, no reservation is held, no review was
cut, and the rows that are still open are among `todo`. -/
structure Halted (g : GoalRunner) (plan : Plan) (gen : Generated) (isOver : Bool) (state : RunState)
    (todo : Task → Prop) (w : World) : Prop where
  inv : Inv g plan gen w
  rested : Rested w
  isOver : w.ledger.isOver = isOver
  accepted : w.ledger.accepted = true
  raised : w.ledger.raised = []
  holding : w.holding = false
  cut : ∀ c ∈ w.coroutines, (w.ledger.marks c.task.id).cut = false
  run : w.db.findRun gen.runId = some { g.running plan gen with state }
  rows : ∀ row ∈ w.db.tasksOf gen.runId, Scheduler.isOpen row.state = true → todo row

/-- How `execute` leaves a run it has stopped. -/
abbrev Stopped (g : GoalRunner) (plan : Plan) (gen : Generated) : World → Prop :=
  Halted g plan gen true .cancelled fun _ => False

theorem Halted.alone {isOver : Bool} {state : RunState} {todo : Task → Prop} :
    Alone g plan gen (Halted g plan gen isOver state todo) where
  inv _ hw := hw.inv
  rested _ hw := hw.rested
  ask w w' hw hask := by
    refine ⟨hask.inv, ?_, hask.isOver.trans hw.isOver, hask.accepted hw.accepted,
      hask.raised.trans hw.raised, ?_, ?_, ?_, ?_⟩
    · simpa only [Rested, hask.coroutines] using hw.rested
    · rw [World.holding, hask.coroutines, hask.marks]
      exact hw.holding
    · rw [hask.coroutines, hask.marks]
      exact hw.cut
    · rw [hask.db]
      exact hw.run
    · rw [hask.db]
      exact hw.rows

theorem Halted.mono {isOver : Bool} {state : RunState} {todo todo' : Task → Prop}
    (h : Halted g plan gen isOver state todo w)
    (htodo : ∀ row ∈ w.db.tasksOf gen.runId, Scheduler.isOpen row.state = true → todo row → todo' row) :
    Halted g plan gen isOver state todo' w :=
  { h with rows := fun row hrow hopen => htodo row hrow hopen (h.rows row hrow hopen) }

/-- Between two batches nothing has raised. -/
theorem Between.unraised (h : Between g plan gen outs w) : w.ledger.raised = [] := by
  by_contra hne
  obtain ⟨x, hx⟩ := List.exists_mem_of_ne_nil _ hne
  rcases h.inv.raised x hx with ⟨hparty, _⟩ | ⟨n, c, _, _, hc, hmarked⟩
  · exact h.own x hx hparty
  · obtain ⟨_, _, _, s, hview, hconcluded⟩ := h.outcome hc
    rw [hview.marks, hconcluded.raised] at hmarked
    cases hmarked

theorem Between.halted (h : Between g plan gen outs w) (haccepted : w.ledger.accepted = true) :
    Halted g plan gen false .running (fun _ => True) w where
  inv := h.inv
  rested := h.rested
  isOver := h.isOver
  accepted := haccepted
  raised := h.unraised
  holding := by
    apply List.any_eq_false.mpr
    intro c hc
    obtain ⟨n, hn⟩ := List.mem_iff_getElem?.mp hc
    obtain ⟨_, _, _, s, hview, hconcluded⟩ := h.outcome hn
    rw [hview.marks, hconcluded.reserved]
    nofun
  cut c hc := by
    obtain ⟨n, hn⟩ := List.mem_iff_getElem?.mp hc
    obtain ⟨_, _, _, s, hview, hconcluded⟩ := h.outcome hn
    rw [hview.marks, hconcluded.cut]
  run := h.run
  rows _ _ _ := trivial

theorem Between.alone : Alone g plan gen (Between g plan gen outs) where
  inv _ hw := hw.inv
  rested _ hw := hw.rested
  ask _ _ hw hask := hw.ask hask

/-- An open task may be cancelled. -/
theorem Scheduler.canTransition_of_isOpen {state : TaskState} (h : Scheduler.isOpen state = true) :
    state.canTransition .cancelled = true ∧ state ≠ .succeeded := by
  cases state <;> first | exact ⟨rfl, nofun⟩ | cases h

/-- The rows that are left to be cancelled. -/
structure Cancelling (g : GoalRunner) (plan : Plan) (gen : Generated) (all done : List Task) (w : World) :
    Prop where
  halted : Halted g plan gen false .running (fun row => row ∈ all ∧ row ∉ done) w
  stored : ∀ t ∈ all, Scheduler.isOpen t.state = true → t ∉ done → w.db.findTask t.id = some t

theorem Cancelling.alone {all done : List Task} : Alone g plan gen (Cancelling g plan gen all done) where
  inv _ hw := hw.halted.inv
  rested _ hw := hw.halted.rested
  ask w w' hw hask := ⟨Halted.alone.ask w w' hw.halted hask, by rw [hask.db]; exact hw.stored⟩

/-- A row that is not open is passed over. -/
theorem Cancelling.skip {all done : List Task} {t : Task} (h : Cancelling g plan gen all done w)
    (hclosed : ¬Scheduler.isOpen t.state = true) : Cancelling g plan gen all (done ++ [t]) w where
  halted := h.halted.mono fun row _ hopen hrow => by
    refine ⟨hrow.1, fun hmem => ?_⟩
    rcases List.mem_append.mp hmem with hold | hlast
    · exact hrow.2 hold
    · rw [List.mem_singleton.mp hlast] at hopen
      exact hclosed hopen
  stored t' ht' hopen hnot := h.stored t' ht' hopen fun hmem => hnot (List.mem_append_left _ hmem)

/-- An open row is cancelled. -/
theorem Cancelling.cancel {all done : List Task} {t : Task} (h : Cancelling g plan gen all done w)
    (hnodup : (all.map Task.id).Nodup) (ht : t ∈ all) (hwrote : Wrote { t with state := .cancelled } w w')
    (hinv : Inv g plan gen w') : Cancelling g plan gen all (done ++ [t]) w' where
  halted := by
    obtain ⟨_, hrested, hover, haccepted, hraised, hholding, hcut, hrun, hrows⟩ := h.halted
    refine ⟨hinv, ?_, ?_, ?_, ?_, ?_, ?_, ?_, ?_⟩
    · exact hwrote.rested.mpr hrested
    · rw [hwrote.ledger]
      exact hover
    · rw [hwrote.ledger]
      exact haccepted
    · rw [hwrote.ledger]
      exact hraised
    · rw [World.holding, hwrote.coroutines, hwrote.ledger]
      exact hholding
    · rw [hwrote.coroutines, hwrote.ledger]
      exact hcut
    · rw [Database.findRun, hwrote.runs]
      exact hrun
    · intro row hrow hopen
      obtain ⟨hmem, hrunId⟩ := List.mem_filter.mp hrow
      rw [hwrote.tasks] at hmem
      rcases Table.mem_upsert.mp hmem with ⟨hold, hne⟩ | rfl
      · obtain ⟨hall, hnot⟩ := hrows row (List.mem_filter.mpr ⟨hold, hrunId⟩) hopen
        refine ⟨hall, fun hmem => ?_⟩
        rcases List.mem_append.mp hmem with hdone | hlast
        · exact hnot hdone
        · rw [List.mem_singleton.mp hlast] at hne
          exact hne rfl
      · cases hopen
  stored t' ht' hopen hnot := by
    have hne : t' ≠ t := by
      rintro rfl
      exact hnot (List.mem_append_right _ (List.mem_singleton_self _))
    have hids : t'.id ≠ t.id := fun heq => hne (List.inj_on_of_nodup_map hnodup ht' ht heq)
    rw [hwrote.findTask, if_neg hids]
    exact h.stored t' ht' hopen fun hmem => hnot (List.mem_append_left _ hmem)

/-- **All open tasks of the run are cancelled**, then the run. -/
theorem wp_cancelRun {reason projectId : String} {k : Run → Program α} {Q : α → World → Prop}
    {F : PyExn → World → Prop} (h : Halted g plan gen false .running (fun _ => True) w)
    (hrest : ∀ run w, Halted g plan gen false .cancelled (fun _ => False) w →
      wp (driver g plan gen) (k run) Q F w) :
    wp (driver g plan gen) ((Scheduler.cancelRun projectId (g.running plan gen) reason).bind k) Q F w := by
  unfold Scheduler.cancelRun
  simp only [Prog.bind_eq, Prog.op_bind, Prog.call_bind, Prog.bind_assoc]
  apply Halted.alone.wp_idle (o := .loadTasks _) h loadTasks_idle
  intro w rows hw hexec
  have hrows : rows.Perm (w.db.tasksOf gen.runId) := by
    simp only [exec] at hexec
    split at hexec
    · next hperm => exact hperm
    · cases hexec
  have hkeyed : (rows.map Task.id).Nodup :=
    (hrows.map Task.id).nodup_iff.mpr (hw.inv.keyed.sublist (List.filter_sublist.map Task.id))
  have hassigned : ∀ t ∈ rows, ∃ entry, Assigned plan gen entry ∧
      t = { entry.1 with state := t.state } := fun t ht =>
    have hmem := List.mem_filter.mp (hrows.mem_iff.mp ht)
    hw.inv.rows t hmem.1 (of_decide_eq_true hmem.2)
  apply wp_seq (M := fun _ => Halted g plan gen false .running fun _ => False)
  · refine wp_mono (wp_forEach (Cancelling g plan gen rows) ?_ ?_) ?_ fun _ _ h => h
    · refine ⟨hw.mono fun row hrow _ _ => ⟨hrows.mem_iff.mpr hrow, List.not_mem_nil⟩, ?_⟩
      intro t ht _ _
      exact Table.lookup_of_mem hw.inv.keyed (List.mem_of_mem_filter (hrows.mem_iff.mp ht))
    · intro done t rest w hall hw
      have ht : t ∈ rows := by simp [hall]
      split
      · next hopen =>
          obtain ⟨hallowed, hstate⟩ := Scheduler.canTransition_of_isOpen hopen
          have hfirst : t ∉ done := by
            intro hmem
            rw [hall, List.map_append, List.nodup_append] at hkeyed
            exact hkeyed.2.2 _ (List.mem_map_of_mem hmem) _ (by simp) rfl
          have hunfinished : ∀ w, Cancelling g plan gen rows done w → ¬Done w t.id := by
            rintro w hw ⟨row, hread, hsucceeded⟩
            rw [hw.stored t ht hopen hfirst] at hread
            cases hread
            exact hstate hsucceeded
          apply Cancelling.alone.wp_cancelTask Cancelling.alone hallowed hw (hassigned t ht) hunfinished
          · intro w w' hw hwrote
            obtain ⟨entry, hentry, heq⟩ := hassigned t ht
            refine hw.cancel hkeyed ht hwrote (hwrote.inv hw.halted.inv hw.halted.rested ?_ (hunfinished w hw) (by rintro ⟨⟩))
            exact ⟨entry, hentry, by rw [heq]⟩
          · exact fun w hw => hw
      · next hclosed => exact hw.skip hclosed
    · intro _ w hw
      exact hw.halted.mono fun row _ _ hrow => hrow.2 hrow.1
  · intro _ w hw
    apply Halted.alone.wp_idle (o := .loadRun _) hw loadRun_idle
    intro w stored hw hexec
    have hstored : stored = some (g.running plan gen) := by
      simp only [exec] at hexec
      split at hexec
      · next heq => exact heq.trans hw.run
      · cases hexec
    subst hstored
    have hcancelled : Alone g plan gen (Halted g plan gen false .cancelled fun _ => False) := Halted.alone
    apply Halted.alone.wp_moveRun hcancelled (by rfl) hw
    · intro event w hw
      have hquiet := Quiet.commitRun w { g.running plan gen with state := .cancelled } event
      refine ⟨hquiet.inv hw.inv hw.rested, hw.rested, hw.isOver, hw.accepted, hw.raised, hw.holding, hw.cut, ?_, hw.rows⟩
      exact Database.findRun_commit { g.running plan gen with state := .cancelled } event w.db
    · exact hrest _

/-- **A run that was asked to stop is stopped.** -/
theorem wp_stopRun {F : PyExn → World → Prop} (h : Between g plan gen outs w)
    (haccepted : w.ledger.accepted = true) :
    wp (driver g plan gen) (g.stopRun (g.running plan gen) outs) (fun _ => Stopped g plan gen) F w := by
  unfold GoalRunner.stopRun
  rw [Prog.bind_eq, Prog.op_bind]
  have hhalted := h.halted haccepted
  apply Halted.alone.wp_idle (o := .reason _) hhalted
  · intro w r w' hexec
    simp only [exec] at hexec
    split at hexec <;> cases hexec
    rfl
  intro w reason hw _
  apply wp_cancelRun hw
  intro run w hw
  simp only [Prog.bind_eq, Prog.op_bind, Prog.pure_eq]
  apply Halted.alone.wp_own hw
  intro w _ w' hw hexec
  cases hexec
  have hclosed : Closed gen w
      { w with requested := w.requested.pop gen.runId, ledger := { w.ledger with isOver := true } } := by
    refine ⟨rfl, rfl, rfl, rfl, ?_⟩
    show Dict.get? (Dict.pop w.requested gen.runId) gen.runId = none
    rw [Dict.get?_pop, if_pos rfl]
  refine ⟨.inr (hclosed.drive hw.inv hw.rested hw.isOver), ?_⟩
  have hstopped : Stopped g plan gen
      { w with requested := w.requested.pop gen.runId, ledger := { w.ledger with isOver := true } } :=
    ⟨hclosed.inv hw.inv hw.rested hw.isOver, hw.rested, rfl, hw.accepted, hw.raised, hw.holding, hw.cut, hw.run,
      hw.rows⟩
  apply Halted.alone.wp_idle (o := .loadRun _) hstopped loadRun_idle
  exact fun w _ hw _ => hw

end Stop

/-! ## A run that is settled -/

section Settle

variable {g : GoalRunner} {plan : Plan} {gen : Generated} {w w' : World} {outs : List TaskOutcome}
  {state : RunState}

/-- `execute` has asked for the last time and was told of no request: every task has met its fate. -/
structure Settling (g : GoalRunner) (plan : Plan) (gen : Generated) (outs : List TaskOutcome)
    (state : RunState) (w : World) : Prop where
  inv : Inv g plan gen w
  standing : Standing g plan gen w
  results : w.coroutines.map Coroutine.result = outs.map fun o => some (.ok o)
  run : w.db.findRun gen.runId = some { g.running plan gen with state }
  isOver : w.ledger.isOver = true
  late : w.ledger.accepted = true → w.ledger.late = true
  fates : ∀ entry, Assigned plan gen entry → ∃ s, View entry.1 s w ∧ Fate s
  exhausted : Became plan gen w (fun s => s.state = .failed) ∨
    Became plan gen w (fun s => s.state = .ready) ∨ AllDone plan gen w
  handled : ∀ x ∈ w.ledger.raised, x.handled = true
  gates : w.ledger.raised ≠ [] → AllDone plan gen w ∧ ∃ entry, Assigned plan gen entry

/-- What `evaluate_run_completion` makes of the tasks. -/
inductive Verdict (plan : Plan) (gen : Generated) (w : World) : RunState → Prop
  | failed (hfailed : Became plan gen w fun s => s.state = .failed) : Verdict plan gen w .failed
  | verifying (hdone : AllDone plan gen w) (hsome : ∃ entry, Assigned plan gen entry) :
      Verdict plan gen w .verifying
  | undecided (hunfailed : ∀ entry, Assigned plan gen entry → ∃ s, View entry.1 s w ∧ s.state ≠ .failed)
      (hopen : (∀ entry, ¬Assigned plan gen entry) ∨ Became plan gen w fun s => s.state = .ready) :
      Verdict plan gen w .running

/-- How `execute` leaves a run it was not asked to stop. -/
structure Settled (g : GoalRunner) (plan : Plan) (gen : Generated) (w : World) : Prop where
  settled : ∃ outs state, Settling g plan gen outs state w ∧ Verdict plan gen w state

theorem Settling.rested (h : Settling g plan gen outs state w) : Rested w := rested_of_results h.results

/-- What the tasks have become depends on their shares. -/
theorem Became.congr {P : Share → Prop} (hview : ∀ t s, View t s w → View t s w')
    (h : Became plan gen w P) : Became plan gen w' P := by
  obtain ⟨entry, s, hentry, hs, hP⟩ := h
  exact ⟨entry, s, hentry, hview _ _ hs, hP⟩

theorem AllDone.congr (hdone : ∀ id, Done w id → Done w' id) (h : AllDone plan gen w) :
    AllDone plan gen w' := fun entry hentry => hdone _ (h entry hentry)

theorem Settling.ask (h : Settling g plan gen outs state w) (hask : Ask g plan gen w w') :
    Settling g plan gen outs state w' where
  inv := hask.inv
  standing := h.standing.ask hask
  results := by rw [hask.coroutines]; exact h.results
  run := by rw [hask.db]; exact h.run
  isOver := hask.isOver.trans h.isOver
  late haccepted := by
    rcases hask.late h.isOver with hlate | ⟨hlate, hsame⟩
    · exact hlate
    · rw [hlate]
      rw [hsame] at haccepted
      exact h.late haccepted
  fates entry hentry := by
    obtain ⟨s, hview, hfate⟩ := h.fates entry hentry
    exact ⟨s, hview.ask hask, hfate⟩
  exhausted := h.exhausted.imp (Became.congr fun _ _ hview => hview.ask hask) <|
    Or.imp (Became.congr fun _ _ hview => hview.ask hask) (AllDone.congr fun _ => Done.ask hask)
  handled := by rw [hask.raised]; exact h.handled
  gates := by
    rw [hask.raised]
    exact fun hne => ⟨(h.gates hne).1.congr fun _ => Done.ask hask, (h.gates hne).2⟩

theorem Settling.alone : Alone g plan gen (Settling g plan gen outs state) where
  inv _ hw := hw.inv
  rested _ hw := hw.rested
  ask _ _ hw hask := hw.ask hask

/-- A call of `execute` that leaves the tasks alone; what it raises is handled, and comes from a gate. -/
theorem Settling.quiet {state' : RunState} (h : Settling g plan gen outs state w) (hquiet : Quiet w w')
    (hrun : w'.db.findRun gen.runId = some { g.running plan gen with state := state' })
    (hhandled : ∀ x ∈ w'.ledger.raised, x ∈ w.ledger.raised ∨
      x.handled = true ∧ AllDone plan gen w ∧ ∃ entry, Assigned plan gen entry) :
    Settling g plan gen outs state' w' where
  inv := hquiet.inv h.inv h.rested
  standing := hquiet.standing h.standing
  results := by rw [hquiet.coroutines]; exact h.results
  run := hrun
  isOver := hquiet.isOver.trans h.isOver
  late := by rw [hquiet.accepted, hquiet.late]; exact h.late
  fates entry hentry := by
    obtain ⟨s, hview, hfate⟩ := h.fates entry hentry
    exact ⟨s, hquiet.view hview, hfate⟩
  exhausted := h.exhausted.imp (Became.congr fun _ _ => hquiet.view) <|
    Or.imp (Became.congr fun _ _ => hquiet.view) (AllDone.congr fun id => (hquiet.done id).mpr)
  handled x hx := by
    rcases hhandled x hx with hold | ⟨hnew, _⟩
    · exact h.handled x hold
    · exact hnew
  gates hne := by
    obtain ⟨x, hx⟩ := List.exists_mem_of_ne_nil _ hne
    rcases hhandled x hx with hold | ⟨_, hdone, hsome⟩
    · obtain ⟨hdone, hsome⟩ := h.gates (List.ne_nil_of_mem hold)
      exact ⟨hdone.congr fun id => (hquiet.done id).mpr, hsome⟩
    · exact ⟨hdone.congr fun id => (hquiet.done id).mpr, hsome⟩

theorem Verdict.congr (hview : ∀ t s, View t s w → View t s w') (hdone : ∀ id, Done w id → Done w' id)
    (h : Verdict plan gen w state) : Verdict plan gen w' state := by
  cases h with
  | failed hfailed => exact .failed (hfailed.congr hview)
  | verifying hall hsome => exact .verifying (hall.congr hdone) hsome
  | undecided hunfailed hopen =>
      refine .undecided (fun entry hentry => ?_) (hopen.imp_right (Became.congr hview))
      obtain ⟨s, hs, hstate⟩ := hunfailed entry hentry
      exact ⟨s, hview _ _ hs, hstate⟩

theorem Settled.alone : Alone g plan gen (Settled g plan gen) where
  inv _ hw := by
    obtain ⟨_, _, hsettling, _⟩ := hw
    exact hsettling.inv
  rested _ hw := by
    obtain ⟨_, _, hsettling, _⟩ := hw
    exact hsettling.rested
  ask w w' hw hask := by
    obtain ⟨outs, state, hsettling, hverdict⟩ := hw
    exact ⟨outs, state, hsettling.ask hask, hverdict.congr (fun _ _ h => h.ask hask) fun _ => Done.ask hask⟩

/-! ### The declared gates -/

/-- While the declared gates are run. -/
structure Gating (g : GoalRunner) (plan : Plan) (gen : Generated) (outs : List TaskOutcome) (w : World) :
    Prop where
  settling : Settling g plan gen outs .running w
  done : AllDone plan gen w
  some : ∃ entry, Assigned plan gen entry

theorem Gating.alone : Alone g plan gen (Gating g plan gen outs) where
  inv _ hw := hw.settling.inv
  rested _ hw := hw.settling.rested
  ask _ _ hw hask := ⟨hw.settling.ask hask, hw.done.congr fun _ => Done.ask hask, hw.some⟩

theorem Gating.quiet (h : Gating g plan gen outs w) (hquiet : Quiet w w') (hruns : w'.db.runs = w.db.runs)
    (hhandled : ∀ x ∈ w'.ledger.raised, x ∈ w.ledger.raised ∨ x.handled = true) :
    Gating g plan gen outs w' where
  settling := by
    refine h.settling.quiet hquiet (by rw [Database.findRun, hruns]; exact h.settling.run) fun x hx => ?_
    exact (hhandled x hx).imp_right fun hyes => ⟨hyes, h.done, h.some⟩
  done := h.done.congr fun id => (hquiet.done id).mpr
  some := h.some

/-- A call of a gate that raises, and is not handled. -/
theorem Gating.failed (h : Gating g plan gen outs w) (hquiet : Quiet w w') (hruns : w'.db.runs = w.db.runs)
    (hraised : ∃ x ∈ w'.ledger.raised, x.handled = false) : Failed g plan gen w' where
  inv := hquiet.inv h.settling.inv h.settling.rested
  run := by rw [Database.findRun, hruns]; exact h.settling.run
  raised _ := hraised
  cause := .inl hraised

/-- **A declared gate** either answers, or raises what is not handled. -/
theorem wp_runGateCommand {gate : GateKind} {command : String} (h : Gating g plan gen outs w) :
    wp (driver g plan gen) (runGateCommand gate command) (fun _ => Gating g plan gen outs)
      (fun _ => Failed g plan gen) w := by
  unfold runGateCommand
  simp only [Prog.bind_eq, Prog.op_bind, Prog.pure_eq]
  apply Gating.alone.wp_quiet h
  intro w r w' hw hexec
  simp only [exec] at hexec
  split at hexec
  swap
  · cases hexec
  cases hexec
  have hsplit := Quiet.outside .split rfl r w
  refine ⟨hsplit, ?_⟩
  cases r with
  | error e =>
      refine hw.failed hsplit rfl ⟨⟨.execute, .split, e⟩, ?_, by cases e <;> rfl⟩
      exact List.mem_append_right _ (List.mem_singleton_self _)
  | ok argv =>
      rw [Prog.ofExcept_ok, Prog.ret_bind]
      split
      · exact hw
      · apply Gating.alone.wp_quiet hw
        intro w r w' hw hexec
        simp only [exec] at hexec
        split at hexec
        swap
        · cases hexec
        cases hexec
        have hlaunch := Quiet.outside .launch rfl r w
        refine ⟨hlaunch, ?_⟩
        have hlast : ∀ e, (⟨.execute, .launch, e⟩ : Raise) ∈ (w.outside .execute .launch
            (.error e : Except PyExn Unit)).ledger.raised := fun e =>
          List.mem_append_right _ (List.mem_singleton_self _)
        have hhandled : ∀ e, (⟨.execute, .launch, e⟩ : Raise).handled = true → ∀ x ∈ (w.outside .execute .launch
            (.error e : Except PyExn Unit)).ledger.raised, x ∈ w.ledger.raised ∨ x.handled = true := by
          intro e he x hx
          rcases List.mem_append.mp hx with hold | hnew
          · exact .inl hold
          · rw [List.mem_singleton.mp hnew]
            exact .inr he
        split
        · next message => exact hw.quiet hlaunch rfl (hhandled _ rfl)
        · next message => exact hw.quiet hlaunch rfl (hhandled _ rfl)
        · next e hfile hpermission _ =>
            refine hw.failed hlaunch rfl ⟨_, hlast e, ?_⟩
            cases e <;> first | rfl | exact absurd rfl (hfile _) | exact absurd rfl (hpermission _)
        · have hstarted : Gating g plan gen outs (w.outside .execute .launch (.ok () : Except PyExn Unit)) := hw
          apply Gating.alone.wp_idle (o := .communicate) hstarted
            fun w r w' hexec => (Option.some.inj hexec).symm
          intro w r hw _
          cases r with
          | timedOut => exact hw
          | exited returncode output =>
              dsimp only
              split <;> exact hw

/-- **The declared gates**, in order. -/
theorem wp_verifyDeclaredGates {gates : List GateKind} (h : Gating g plan gen outs w) :
    wp (driver g plan gen) (g.verifyDeclaredGates (g.running plan gen) gates)
      (fun _ => Gating g plan gen outs) (fun _ => Failed g plan gen) w := by
  induction gates generalizing w with
  | nil => exact h
  | cons gate rest ih =>
      unfold GoalRunner.verifyDeclaredGates
      split
      · exact ih h
      · next command _ =>
          simp only [Prog.bind_eq, Prog.op_bind, Prog.pure_eq]
          apply wp_seq (wp_runGateCommand h)
          intro outcome w hw
          apply Gating.alone.wp_quiet hw
          intro w _ w' hw hexec
          cases hexec
          have hquiet := Quiet.saveEvidence w
            (evidenceFor outcome (g.running plan gen).goalId (g.running plan gen).id) rfl
          refine ⟨hquiet, wp_seq (ih (hw.quiet hquiet rfl fun x hx => .inl hx)) fun _ w hw => hw⟩

/-! ### The verdict -/

/-- The rows of the run are its tasks, as they have become. -/
theorem Settling.rows (h : Settling g plan gen outs state w) {rows : List Task}
    (hrows : rows.Perm (w.db.tasksOf gen.runId)) :
    (∀ t ∈ rows, ∃ entry s, Assigned plan gen entry ∧ View entry.1 s w ∧ Fate s ∧ t = s.row entry.1) ∧
      ∀ entry s, Assigned plan gen entry → View entry.1 s w → s.row entry.1 ∈ rows := by
  constructor
  · intro t ht
    obtain ⟨hmem, hrun⟩ := List.mem_filter.mp (hrows.mem_iff.mp ht)
    obtain ⟨entry, hentry, heq⟩ := h.inv.rows t hmem (of_decide_eq_true hrun)
    obtain ⟨s, hview, hfate⟩ := h.fates entry hentry
    have hread := Table.lookup_of_mem h.inv.keyed hmem
    rw [show t.id = entry.1.id by rw [heq]] at hread
    exact ⟨entry, s, hentry, hview, hfate, Option.some.inj (hread.symm.trans hview.row)⟩
  · intro entry s hentry hview
    refine hrows.mem_iff.mpr (List.mem_filter.mpr ⟨(Table.mem_of_lookup hview.row).1, ?_⟩)
    exact decide_eq_true hentry.runId

/-- **`evaluate_run_completion`** settles the run. -/
theorem wp_evaluateRunCompletion {α : Type} {k : Bool → Program α} {Q : α → World → Prop}
    {F : PyExn → World → Prop} (h : Settling g plan gen outs .running w)
    (hrest : ∀ b w, Settled g plan gen w → wp (driver g plan gen) (k b) Q F w) :
    wp (driver g plan gen) ((Scheduler.evaluateRunCompletion (g.running plan gen)).bind k) Q F w := by
  have hadvance : ∀ (toState : RunState) (type : EventType) (k' : Run → Program α) (w : World),
      RunState.running.canTransition toState = true → Settling g plan gen outs .running w →
      Verdict plan gen w toState →
      (∀ run w, Settled g plan gen w → wp (driver g plan gen) (k' run) Q F w) →
      wp (driver g plan gen) ((Scheduler.moveRun (g.running plan gen) toState type []).bind k') Q F w := by
    intro toState type k' w hallowed hw hverdict hk
    have hboth : Alone g plan gen fun w => Settling g plan gen outs .running w ∧ Verdict plan gen w toState :=
      ⟨fun w hw => hw.1.inv, fun w hw => hw.1.rested, fun w w' hw hask =>
        ⟨hw.1.ask hask, hw.2.congr (fun _ _ h => h.ask hask) fun _ => Done.ask hask⟩⟩
    apply hboth.wp_moveRun Settled.alone hallowed ⟨hw, hverdict⟩
    · intro event w hw
      have hquiet := Quiet.commitRun w { g.running plan gen with state := toState } event
      refine ⟨outs, toState, hw.1.quiet hquiet ?_ fun x hx => .inl hx, ?_⟩
      · exact Database.findRun_commit { g.running plan gen with state := toState } event w.db
      · exact hw.2.congr (fun _ _ => hquiet.view) fun id => (hquiet.done id).mpr
    · exact hk _
  unfold Scheduler.evaluateRunCompletion
  simp only [Prog.bind_eq, Prog.op_bind, Prog.call_bind, Prog.pure_eq]
  apply Settling.alone.wp_idle (o := .loadTasks _) h loadTasks_idle
  intro w rows hw hexec
  have hrows : rows.Perm (w.db.tasksOf gen.runId) := by
    simp only [exec] at hexec
    split at hexec
    · next hperm => exact hperm
    · cases hexec
  obtain ⟨hback, hforth⟩ := hw.rows hrows
  have hundecided : Verdict plan gen w .running → wp (driver g plan gen) (k false) Q F w := fun hverdict =>
    hrest false w ⟨outs, .running, hw, hverdict⟩
  split
  · next hnone =>
      rw [hnone] at hforth
      have hempty : ∀ entry, ¬Assigned plan gen entry := by
        intro entry hentry
        obtain ⟨s, hview, _⟩ := hw.fates entry hentry
        exact List.not_mem_nil (hforth entry s hentry hview)
      exact hundecided (.undecided (fun entry hentry => absurd hentry (hempty entry)) (.inl hempty))
  · next hsome =>
      split
      · next hfailed =>
          obtain ⟨t, ht, hstate⟩ := List.any_eq_true.mp hfailed
          obtain ⟨entry, s, hentry, hview, _, rfl⟩ := hback t ht
          rw [Prog.bind_assoc]
          refine hadvance .failed _ _ w rfl hw (.failed ⟨entry, s, hentry, hview, ?_⟩) fun _ => hrest false
          exact of_decide_eq_true hstate
      · next hunfailed =>
          have hnofail : ∀ entry, Assigned plan gen entry → ∃ s, View entry.1 s w ∧ s.state ≠ .failed := by
            intro entry hentry
            obtain ⟨s, hview, _⟩ := hw.fates entry hentry
            refine ⟨s, hview, fun hstate => hunfailed ?_⟩
            exact List.any_eq_true.mpr ⟨_, hforth entry s hentry hview, decide_eq_true hstate⟩
          split
          · next hcancelled =>
              obtain ⟨t, ht, hstate⟩ := List.any_eq_true.mp hcancelled
              obtain ⟨entry, s, _, _, hfate, rfl⟩ := hback t ht
              have hs : s.state = .cancelled := of_decide_eq_true hstate
              cases hfate <;> simp_all
          · split
            · next hall =>
                have hdone : AllDone plan gen w := by
                  intro entry hentry
                  obtain ⟨s, hview, hfate⟩ := hw.fates entry hentry
                  have hstate := List.all_eq_true.mp hall _ (hforth entry s hentry hview)
                  refine ⟨_, hview.row, ?_⟩
                  cases hfate <;> simp_all [Share.row]
                obtain ⟨t, ht⟩ := List.exists_mem_of_ne_nil _ hsome
                obtain ⟨entry, _, hentry, _⟩ := hback t ht
                rw [Prog.bind_assoc]
                exact hadvance .verifying _ _ w rfl hw (.verifying hdone ⟨entry, hentry⟩) fun _ => hrest true
            · next hopen =>
                refine hundecided (.undecided hnofail (.inr ?_))
                rcases hw.exhausted with ⟨entry, s, hentry, hview, hstate⟩ | hready | hdone
                · obtain ⟨s', hview', hne⟩ := hnofail entry hentry
                  have := Option.some.inj (hview.row.symm.trans hview'.row)
                  have hsame : s.state = s'.state := congrArg Task.state this
                  exact absurd (hsame.symm.trans hstate) hne
                · exact hready
                · refine absurd (List.all_eq_true.mpr fun t ht => ?_) hopen
                  obtain ⟨entry, s, hentry, hview, _, rfl⟩ := hback t ht
                  obtain ⟨row, hread, hsucceeded⟩ := hdone entry hentry
                  cases hread.symm.trans hview.row
                  rw [hsucceeded]
                  rfl

/-- Every task has succeeded if every outcome is a success and no task is still planned. -/
theorem Settling.allDone (h : Settling g plan gen outs state w) (hinj : gen.Injective plan) {rows : List Task}
    (hrows : rows.Perm (w.db.tasksOf gen.runId)) (hall : ∀ o ∈ outs, o.succeeded = true)
    (hplanned : ∀ t ∈ rows, t.state ≠ .planned) : AllDone plan gen w := by
  intro entry hentry
  rcases h.standing.seen h.inv h.results hinj hentry with ⟨_, _, o, s, _, _, ho, hview, hconcluded⟩ | ⟨_, hview⟩
  · rcases hconcluded.ended with ⟨_, hs⟩ | ⟨hno, _⟩ | ⟨hno, _⟩ | ⟨hno, _⟩
    · exact ⟨s.row entry.1, hview.row, hs⟩
    all_goals
      rw [hall o ho] at hno
      cases hno
  · exact absurd rfl (hplanned _ ((h.rows hrows).2 entry {} hentry hview))

/-- **A run that has nothing left to do is settled**, unless a declared gate raises. -/
theorem wp_settleRun (hinj : gen.Injective plan) (h : Settling g plan gen outs .running w) :
    wp (driver g plan gen) (g.settleRun (g.running plan gen) outs) (fun _ => Settled g plan gen)
      (fun _ => Failed g plan gen) w := by
  unfold GoalRunner.settleRun
  simp only [Prog.bind_eq, Prog.op_bind, Prog.pure_eq]
  apply Settling.alone.wp_idle (o := .loadTasks _) h loadTasks_idle
  intro w rows hw hexec
  have hrows : rows.Perm (w.db.tasksOf gen.runId) := by
    simp only [exec] at hexec
    split at hexec
    · next hperm => exact hperm
    · cases hexec
  -- the verdict, and the report
  have hsettle : ∀ (gates : List GateOutcome) (blocked : List TaskId) (w : World),
      Settling g plan gen outs .running w →
      wp (driver g plan gen) ((Scheduler.evaluateRunCompletion (g.running plan gen)).bind fun _ =>
        .call (.loadRun gen.runId) fun reloaded =>
          .ret ({ run := reloaded.getD (g.running plan gen), outcomes := outs, blocked, gates } :
            GoalRunner.Report)) (fun _ => Settled g plan gen) (fun _ => Failed g plan gen) w := by
    intro gates blocked w hw
    apply wp_evaluateRunCompletion hw
    intro _ w hw
    apply Settled.alone.wp_idle (o := .loadRun _) hw loadRun_idle
    exact fun w _ hw _ => hw
  split
  · next hgates =>
      obtain ⟨⟨hsome, hsucceeded⟩, hblocked⟩ := hgates
      have hplanned : ∀ t ∈ rows, t.state ≠ .planned := by
        intro t ht hstate
        have hmem : t ∈ rows.filter fun task => task.state = .planned || task.state = .blocked :=
          List.mem_filter.mpr ⟨ht, by simp [hstate]⟩
        rw [List.map_eq_nil_iff.mp hblocked] at hmem
        exact List.not_mem_nil hmem
      have hdone := hw.allDone hinj hrows (List.all_eq_true.mp hsucceeded) hplanned
      have hentry : ∃ entry, Assigned plan gen entry := by
        have hcoroutines : w.coroutines ≠ [] := by
          intro hnone
          have hresults := hw.results
          rw [hnone] at hresults
          exact hsome (List.map_eq_nil_iff.mp hresults.symm)
        obtain ⟨c, hc⟩ := List.exists_mem_of_ne_nil _ hcoroutines
        obtain ⟨n, hn⟩ := List.mem_iff_getElem?.mp hc
        exact ⟨c.entry, (hw.inv.spawned n c hn).2⟩
      apply wp_seq (wp_verifyDeclaredGates ⟨hw, hdone, hentry⟩)
      exact fun gates w hw => hsettle gates _ w hw.settling
  · exact hsettle [] _ w hw

/-- What follows the last question, if nobody has asked the run to stop. -/
theorem Between.settling (h : Between g plan gen outs w) (hexit : Exit plan gen outs w)
    (hvalid : plan.Valid) (hinj : gen.Injective plan) (hnone : w.requested.get? gen.runId = none) :
    let w' := { w with ledger := { w.ledger with isOver := true } }
    Closed gen w w' ∧ Settling g plan gen outs .running w' := by
  intro w'
  have hclosed : Closed gen w w' := ⟨rfl, rfl, rfl, rfl, hnone⟩
  have haccepted : w.ledger.accepted = false := by
    rw [(h.inv.books.before h.isOver).2, hnone]
    rfl
  refine ⟨hclosed, hclosed.inv h.inv h.rested h.isOver, hclosed.standing h.standing, h.results, h.run, rfl, ?_, ?_,
    ?_, ?_, ?_⟩
  · intro hyes
    cases hyes.symm.trans haccepted
  · intro entry hentry
    obtain ⟨s, hview, hfate⟩ := h.fate hinj haccepted hentry
    exact ⟨s, hclosed.view hview, hfate⟩
  · exact (h.exhausted hexit hvalid hinj haccepted).imp (Became.congr fun _ _ => hclosed.view) <|
      Or.imp (Became.congr fun _ _ => hclosed.view) id
  · rw [show w'.ledger.raised = [] from h.unraised]
    rintro x ⟨⟩
  · intro hne
    exact absurd h.unraised hne

end Settle

/-! ## After the loop -/

section AfterLoop

variable {g : GoalRunner} {plan : Plan} {gen : Generated} {w w' : World} {outs : List TaskOutcome}
  {nodes : Dict TaskId TaskNode}

/-- Between two passes: every task that was tried has succeeded. -/
structure Passing (g : GoalRunner) (plan : Plan) (gen : Generated) (run : Run)
    (nodes : Dict TaskId TaskNode) (outs : List TaskOutcome) (w : World) : Prop where
  run : run = g.running plan gen
  nodes : Nodes plan gen nodes
  between : Between g plan gen outs w
  succeeded : ∀ o ∈ outs, o.succeeded = true

/-- Where a round of `execute` leads. -/
def Onward (g : GoalRunner) (plan : Plan) (gen : Generated) : GoalRunner.Point ⊕ GoalRunner.Report →
    World → Prop
  | .inl .start, _ => False
  | .inl (.pass run nodes outs), w => Passing g plan gen run nodes outs w
  | .inr _, w => Stopped g plan gen w ∨ Settled g plan gen w

theorem wp_afterLoop (hvalid : plan.Valid) (hinj : gen.Injective plan) (h : Between g plan gen outs w)
    (hexit : Exit plan gen outs w) :
    wp (driver g plan gen) (g.afterLoop (g.running plan gen) outs) (Onward g plan gen)
      (fun _ => Failed g plan gen) w := by
  unfold GoalRunner.afterLoop
  simp only [Prog.bind_eq, Prog.op_bind, Prog.pure_eq]
  have hexiting : Alone g plan gen fun w => Between g plan gen outs w ∧ Exit plan gen outs w :=
    ⟨fun w hw => hw.1.inv, fun w hw => hw.1.rested, fun w w' hw hask => ⟨hw.1.ask hask, hw.2.ask hask⟩⟩
  apply hexiting.wp_own ⟨h, hexit⟩
  intro w r w' hw hexec
  simp only [exec] at hexec
  split at hexec
  swap
  · cases hexec
  next hr =>
  cases r with
  | true =>
      cases hexec
      refine ⟨.inl rfl, ?_⟩
      have haccepted : w.ledger.accepted = true := by
        rw [(hw.1.inv.books.before hw.1.isOver).2]
        exact hr.symm
      exact wp_seq (wp_stopRun hw.1 haccepted) fun _ w hw => .inl hw
  | false =>
      cases hexec
      have hnone : w.requested.get? gen.runId = none :=
        Option.not_isSome_iff_eq_none.mp fun hyes => Bool.noConfusion (hr.trans hyes)
      obtain ⟨hclosed, hsettling⟩ := hw.1.settling hw.2 hvalid hinj hnone
      refine ⟨.inr (hclosed.drive hw.1.inv hw.1.rested hw.1.isOver), ?_⟩
      exact wp_seq (wp_settleRun hinj hsettling) fun _ w hw => .inr hw

/-- **One round of the loop.** -/
theorem wp_pass (hvalid : plan.Valid) (hinj : gen.Injective plan)
    (h : Passing g plan gen (g.running plan gen) nodes outs w) :
    wp (driver g plan gen) (g.pass (g.running plan gen) nodes outs) (Onward g plan gen)
      (fun _ => Failed g plan gen) w := by
  unfold GoalRunner.pass
  simp only [Prog.bind_eq, Prog.op_bind, Prog.pure_eq]
  apply Between.alone.wp_idle (o := .isRequested _ .pass) h.between
  · intro w r w' hexec
    simp only [exec] at hexec
    split at hexec
    · next hr =>
        rw [if_neg (by simp)] at hexec
        exact (Option.some.inj hexec).symm
    · cases hexec
  intro w r hw hexec
  simp only [exec] at hexec
  split at hexec
  swap
  · cases hexec
  next hr =>
  cases r with
  | true =>
      refine wp_afterLoop hvalid hinj hw (.asked ?_)
      rw [(hw.inv.books.before hw.isOver).2]
      exact hr.symm
  | false =>
      simp only [Bool.false_eq_true, if_false]
      unfold Scheduler.readyTasks
      simp only [Prog.bind_eq, Prog.op_bind, Prog.pure_eq, Prog.call_bind, Prog.ret_bind]
      apply Between.alone.wp_idle (o := .loadTasks _) hw loadTasks_idle
      intro w rows hw hexec
      have hrows : rows.Perm (w.db.tasksOf gen.runId) := by
        simp only [exec] at hexec
        split at hexec
        · next hperm => exact hperm
        · cases hexec
      split
      · next hnone => exact wp_afterLoop hvalid hinj hw (hw.blocked hvalid hinj hrows hnone)
      · obtain ⟨entries, hentries, hpending⟩ := hw.pending h.nodes h.succeeded hrows
        rw [hentries, Prog.ofExcept_ok, Prog.ret_bind]
        have hperm := GoalRunner.parallelBatches_perm g.maxParallelTasks entries
        apply wp_seq (wp_gatherBatches hw (hpending.perm hperm.symm) fun _ hbatch => hbatch)
        intro outs' w hw
        split
        · next hunsuccessful =>
            obtain ⟨o, ho, hfailed⟩ := List.any_eq_true.mp hunsuccessful
            exact wp_afterLoop hvalid hinj hw (.unsuccessful ho (by simpa using hfailed))
        · next hall =>
            refine ⟨rfl, h.nodes, hw, fun o ho => ?_⟩
            by_contra hfailed
            exact hall (List.any_eq_true.mpr ⟨o, ho, by simpa using hfailed⟩)

end AfterLoop

end AtlasFlow.Reference
