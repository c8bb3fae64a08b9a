import AtlasFlow.Reference.Ends

/-!
# All runs of one plan

`execute` up to its loop, and the outline of the whole system: what holds of every party in every
reachable state.
-/

namespace AtlasFlow.Reference

open Concurrency

/-! ## Before the loop -/

section Start

variable {g : GoalRunner} {plan : Plan} {gen : Generated} {w w' : World} {run run' : Option Run}
  {saved : List Task}

/-- Before the loop: these rows of the run have been written, and nothing has happened to its tasks. -/
structure Preparing (g : GoalRunner) (plan : Plan) (gen : Generated) (run : Option Run)
    (saved : List Task) (w : World) : Prop where
  inv : Inv g plan gen w
  coroutines : w.coroutines = []
  isOver : w.ledger.isOver = false
  raised : w.ledger.raised = []
  stored : w.db.findRun gen.runId = run
  written : ∀ t ∈ saved, w.db.findTask t.id = some t
  unsaved : ∀ entry, Assigned plan gen entry → entry.1 ∉ saved → w.db.findTask entry.1.id = none
  attempts : ∀ entry, Assigned plan gen entry → ∀ a ∈ w.db.attempts, a.taskId ≠ entry.1.id
  evidence : ∀ entry, Assigned plan gen entry → w.evidenceOf entry.1.id = []
  active : ∀ id, w.active.get? id = none
  marks : ∀ id, w.ledger.marks id = {}

namespace Preparing

theorem alone : Alone g plan gen (Preparing g plan gen run saved) where
  inv _ hw := hw.inv
  rested w hw n c hc := by
    rw [hw.coroutines] at hc
    cases hc
  ask w w' hw hask := by
    refine ⟨hask.inv, hask.coroutines.trans hw.coroutines, hask.isOver.trans hw.isOver,
      hask.raised.trans hw.raised, ?_, ?_, ?_, ?_, ?_, ?_, ?_⟩
    · rw [hask.db]
      exact hw.stored
    · rw [hask.db]
      exact hw.written
    · rw [hask.db]
      exact hw.unsaved
    · rw [hask.db]
      exact hw.attempts
    · intro entry hentry
      rw [World.evidenceOf, hask.db]
      exact hw.evidence entry hentry
    · intro id
      have hsame := hask.active id
      rw [hw.active id] at hsame
      exact Option.map_eq_none_iff.mp hsame
    · rw [hask.marks]
      exact hw.marks

theorem quiet (h : Preparing g plan gen run saved w) (hquiet : Quiet w w') (hledger : w'.ledger = w.ledger)
    (hrun : w'.db.findRun gen.runId = run') : Preparing g plan gen run' saved w' where
  inv := hquiet.inv h.inv (alone.rested w h)
  coroutines := hquiet.coroutines.trans h.coroutines
  isOver := by rw [hledger]; exact h.isOver
  raised := by rw [hledger]; exact h.raised
  stored := hrun
  written := by simpa only [Database.findTask, hquiet.tasks] using h.written
  unsaved := by simpa only [Database.findTask, hquiet.tasks] using h.unsaved
  attempts := by rw [hquiet.attempts]; exact h.attempts
  evidence entry hentry := (hquiet.evidence _).trans (h.evidence entry hentry)
  active := by rw [hquiet.active]; exact h.active
  marks := by rw [hledger]; exact h.marks

/-- The row of a task is written. -/
theorem save (h : Preparing g plan gen run saved w) (hinj : gen.Injective plan) {entry : Entry}
    (hentry : Assigned plan gen entry) (hnew : entry.1 ∉ saved) (hwrote : Wrote entry.1 w w')
    (hinv : Inv g plan gen w') : Preparing g plan gen run (saved ++ [entry.1]) w' where
  inv := hinv
  coroutines := hwrote.coroutines.trans h.coroutines
  isOver := by rw [hwrote.ledger]; exact h.isOver
  raised := by rw [hwrote.ledger]; exact h.raised
  stored := by rw [Database.findRun, hwrote.runs]; exact h.stored
  written t ht := by
    rw [hwrote.findTask]
    split
    · next heq =>
        rcases List.mem_append.mp ht with hold | hlast
        · -- no row was stored under this id
          have hstored := h.written t hold
          rw [heq, h.unsaved entry hentry hnew] at hstored
          cases hstored
        · rw [List.mem_singleton.mp hlast]
    · next hne =>
        rcases List.mem_append.mp ht with hold | hlast
        · exact h.written t hold
        · exact absurd (congrArg Task.id (List.mem_singleton.mp hlast)) hne
  unsaved entry' hentry' hnot := by
    have hne : entry'.1.id ≠ entry.1.id := by
      intro heq
      rw [hentry'.eq_of_id hinj hentry heq] at hnot
      exact hnot (List.mem_append_right _ (List.mem_singleton_self _))
    rw [hwrote.findTask, if_neg hne]
    exact h.unsaved entry' hentry' fun hmem => hnot (List.mem_append_left _ hmem)
  attempts := by rw [hwrote.attempts]; exact h.attempts
  evidence entry' hentry' := (hwrote.evidenceOf _).trans (h.evidence entry' hentry')
  active := by rw [hwrote.active]; exact h.active
  marks := by rw [hwrote.ledger]; exact h.marks

/-- When every row is written and the run is RUNNING, the loop begins. -/
theorem between (h : Preparing g plan gen (some (g.running plan gen)) saved w)
    (hall : ∀ entry, Assigned plan gen entry → entry.1 ∈ saved) : Between g plan gen [] w where
  inv := h.inv
  standing := by
    constructor
    · intro n c result hc _
      rw [h.coroutines] at hc
      cases hc
    · intro entry hentry _
      refine ⟨?_, ?_, ?_, h.marks _, h.evidence entry hentry, nofun⟩
      · rw [h.written _ (hall entry hentry), Share.row, ← hentry.planned]
      · exact fun a ha htask => absurd htask (h.attempts entry hentry a ha)
      · rw [h.active]
        rfl
  run := h.stored
  isOver := h.isOver
  own x hx := by
    rw [h.raised] at hx
    exact absurd hx List.not_mem_nil
  results := by rw [h.coroutines]; rfl

end Preparing

/-- A fresh world is what `execute` is started in. -/
theorem Fresh.preparing (h : Fresh plan gen w) : Preparing g plan gen none [] w := by
  have hkey : ∀ entry, Assigned plan gen entry → ∃ id ∈ plan.byId.keys, entry.1.id = gen.taskId id := by
    intro entry hentry
    obtain ⟨id, hnode, _, _, hid⟩ := hentry.id_eq
    exact ⟨id, Dict.mem_keys.mpr ⟨_, Dict.mem_of_get? hnode⟩, hid⟩
  have hnone : ∀ (n : Nat) (c : Coroutine), w.coroutines[n]? ≠ some c := by
    intro n c hc
    rw [h.coroutines] at hc
    cases hc
  have hattempts : ∀ entry, Assigned plan gen entry → ∀ a ∈ w.db.attempts, a.taskId ≠ entry.1.id := by
    intro entry hentry a ha heq
    obtain ⟨id, hid, htask⟩ := hkey entry hentry
    exact (h.attempts a ha).2 id hid (heq.trans htask)
  have hevidence : ∀ entry, Assigned plan gen entry → w.evidenceOf entry.1.id = [] := by
    intro entry hentry
    obtain ⟨id, hid, htask⟩ := hkey entry hentry
    refine List.filter_eq_nil_iff.mpr fun e he heq => ?_
    exact h.evidence e he id hid ((of_decide_eq_true heq).trans (congrArg some htask))
  refine ⟨?_, h.coroutines, by rw [h.ledger], by rw [h.ledger], h.runs, nofun, ?_, hattempts, hevidence, ?_, ?_⟩
  · constructor
    case keyed => exact h.keyed
    case rows => exact fun row hrow hrun => absurd hrun (h.tasks row hrow).1
    case spawned => exact fun n c hc => absurd hc (hnone n c)
    case distinct =>
      rw [h.coroutines]
      exact List.nodup_nil
    case ready => exact fun n c hc => absurd hc (hnone n c)
    case batch => exact fun ⟨n, c, hlive⟩ => absurd hlive.1 (hnone n c)
    case closed => exact fun a ha _ entry hentry htask => absurd htask (hattempts entry hentry a ha)
    case books =>
      constructor <;> simp [h.ledger, h.requested, h.active, World.holding, h.coroutines]
    case proper => exact fun n c hc => absurd hc (hnone n c)
    case raised =>
      rw [h.ledger]
      exact fun _ hx => absurd hx List.not_mem_nil
    case noted => exact fun n c hc => absurd hc (hnone n c)
    case waiting => exact fun n c hlive => absurd hlive.1 (hnone n c)
    case unmarked =>
      intro entry hentry _
      rw [h.ledger]
      exact ⟨rfl, hevidence entry hentry⟩
    case driven => exact fun hnot => absurd (fun n c hc => absurd hc (hnone n c)) hnot
    case working => exact fun row hrow hrun _ => absurd hrun (h.tasks row hrow).1
    case owned => exact fun a ha hrun => absurd hrun (h.attempts a ha).1
  · intro entry hentry _
    obtain ⟨id, hid, htask⟩ := hkey entry hentry
    refine Table.lookup_eq_none.mpr fun row hrow heq => ?_
    exact (h.tasks row hrow).2 id hid (heq.trans htask)
  · rw [h.active]
    exact fun _ => rfl
  · rw [h.ledger]
    exact fun _ => rfl

theorem Database.findRun_save (run : Run) (db : Database) : (db.upsertRun run).findRun run.id = some run :=
  Table.lookup_upsert_self run db.runs

/-- A transition of the run before the loop. -/
theorem Preparing.wp_moveRun {α : Type} {k : Run → Program α} {Q : α → World → Prop}
    {F : PyExn → World → Prop} {run : Run} {toState : RunState} {type : EventType}
    {extra : List (String × Json)} (hid : run.id = gen.runId)
    (hallowed : run.state.canTransition toState = true) (h : Preparing g plan gen (some run) saved w)
    (hrest : ∀ w, Preparing g plan gen (some { run with state := toState }) saved w →
      wp (driver g plan gen) (k { run with state := toState }) Q F w) :
    wp (driver g plan gen) ((Scheduler.moveRun run toState type extra).bind k) Q F w := by
  have hmoved : Alone g plan gen (Preparing g plan gen (some { run with state := toState }) saved) :=
    Preparing.alone
  apply Preparing.alone.wp_moveRun hmoved hallowed h
  · intro event w hw
    refine hw.quiet (Quiet.commitRun w _ event) rfl ?_
    rw [← hid]
    exact Database.findRun_commit { run with state := toState } event w.db
  · exact hrest

/-- The rows of the tasks are written, one after the other. -/
theorem Preparing.wp_saveTasks (hinj : gen.Injective plan) {tasks : List Task}
    (htasks : ∀ t ∈ tasks, ∃ entry, Assigned plan gen entry ∧ entry.1 = t)
    (hnodup : (tasks.map Task.id).Nodup) {F : PyExn → World → Prop} (h : Preparing g plan gen run [] w) :
    wp (driver g plan gen) (Prog.forEach (fun task => call (.saveTask task)) tasks)
      (fun _ => Preparing g plan gen run tasks) F w := by
  apply wp_forEach (fun done => Preparing g plan gen run done) h
  intro done t rest w hall hw
  obtain ⟨entry, hentry, rfl⟩ := htasks t (by simp [hall])
  have hnew : entry.1 ∉ done := by
    intro hmem
    rw [hall, List.map_append, List.nodup_append] at hnodup
    exact hnodup.2.2 _ (List.mem_map_of_mem hmem) _ (by simp) rfl
  apply Preparing.alone.wp_own hw
  intro w _ w' hw hexec
  cases hexec
  have hopen : ¬Done w entry.1.id := by
    rintro ⟨row, hread, _⟩
    rw [hw.unsaved entry hentry hnew] at hread
    cases hread
  have hwrote := Wrote.saveTask w entry.1
  have hdrive := hwrote.drive hw.inv (Preparing.alone.rested w hw) ⟨entry, hentry, rfl⟩ hopen (by
    rw [hentry.planned]
    nofun)
  exact ⟨.inr hdrive, hw.save hinj hentry hnew hwrote hdrive.inv⟩

/-- **`execute` up to its loop.** -/
theorem wp_start (hvalid : plan.Valid) (hinj : gen.Injective plan)
    (h : Preparing g plan gen none [] w) :
    wp (driver g plan gen) (g.start plan gen) (Onward g plan gen) (fun _ => Failed g plan gen) w := by
  obtain ⟨tasks, nodes, hmaterialize, hmaterialized⟩ := Generated.materialize_ok hvalid hinj
  have htasks : ∀ t ∈ tasks, ∃ entry, Assigned plan gen entry ∧ entry.1 = t := by
    intro t ht
    obtain ⟨id, node, hnode, rfl⟩ := (hmaterialized.mem t).mp ht
    exact ⟨(gen.task node, node), ⟨id, hnode, rfl⟩, rfl⟩
  unfold GoalRunner.start
  simp only [Prog.bind_eq, Prog.op_bind, Prog.pure_eq]
  rw [if_neg (not_not_intro (show plan.validateDag = [] from hvalid))]
  apply Preparing.alone.wp_quiet h
  intro w _ w' hw hexec
  cases hexec
  have hquiet := Quiet.saveRun w (g.newRun plan gen)
  refine ⟨hquiet, ?_⟩
  have hsaved := hw.quiet hquiet rfl (Database.findRun_save (g.newRun plan gen) w.db)
  apply Preparing.wp_moveRun rfl rfl hsaved
  intro w hw
  rw [hmaterialize, Prog.ofExcept_ok, Prog.ret_bind]
  apply Preparing.alone.wp_quiet hw
  intro w _ w' hw hexec
  cases hexec
  have hbudget := Quiet.setBudget w
    (BudgetLedger.fromConfig g.maxRetriesPerTask g.maxTokensPerRun g.maxCostPerRunUsd tasks.length)
  refine ⟨hbudget, ?_⟩
  unfold Scheduler.scheduleTasks
  rw [Prog.bind_eq, Prog.bind_assoc]
  apply wp_seq (Preparing.wp_saveTasks hinj htasks hmaterialized.nodup (hw.quiet hbudget rfl hw.stored))
  intro _ w hw
  apply Preparing.wp_moveRun rfl rfl hw
  intro w hw
  apply Preparing.wp_moveRun rfl rfl hw
  intro w hw
  refine ⟨rfl, hmaterialized.nodes, hw.between ?_, fun _ ho => absurd ho List.not_mem_nil⟩
  rintro ⟨task, node⟩ ⟨id, hnode, htask⟩
  exact (hmaterialized.mem task).mpr ⟨id, node, hnode, htask⟩

end Start

/-! ## The outline -/

section Outline

variable (g : GoalRunner) (plan : Plan) (gen : Generated)

/-- What holds where a party may start again. -/
def Pre : Party → GoalRunner.Point → World → Prop
  | .execute, .start, w => Preparing g plan gen none [] w
  | .execute, .pass run nodes outs, w => Passing g plan gen run nodes outs w
  | .coroutine n, _, w => Begins g plan gen n w
  | .cancelRun _, _, w => Inv g plan gen w

/-- What holds when a party has ended. -/
def Post : Party → Result → World → Prop
  | .execute, _, w => Stopped g plan gen w ∨ Settled g plan gen w
  | _, _, _ => True

/-- What holds when a party has raised. -/
def Fail : Party → PyExn → World → Prop
  | .execute, _, w => Failed g plan gen w
  | _, _, _ => True

variable {g plan gen}

theorem Passing.alone {run : Run} {nodes : Dict TaskId TaskNode} {outs : List TaskOutcome} :
    Alone g plan gen (Passing g plan gen run nodes outs) where
  inv _ hw := hw.between.inv
  rested _ hw := hw.between.rested
  ask _ _ hw hask := { hw with between := hw.between.ask hask }

theorem Pre.moves {i j : Party} {point : GoalRunner.Point} {w w' : World} (hne : j ≠ i)
    (hstep : Moves g plan gen j w w') (h : Pre g plan gen i point w) : Pre g plan gen i point w' := by
  cases i with
  | execute =>
      cases point with
      | start => exact Preparing.alone.moves j w w' hne hstep h
      | pass run nodes outs => exact Passing.alone.moves j w w' hne hstep h
  | coroutine n => exact Begins.moves h hne hstep
  | cancelRun n => exact (Inv.moves h hstep).1

theorem Post.moves {i j : Party} {r : Result} {w w' : World} (hne : j ≠ i)
    (hstep : Moves g plan gen j w w') (h : Post g plan gen i r w) : Post g plan gen i r w' := by
  cases i with
  | execute =>
      rcases h with hstopped | hsettled
      · exact .inl (Halted.alone.moves j w w' hne hstep hstopped)
      · exact .inr (Settled.alone.moves j w w' hne hstep hsettled)
  | coroutine n => trivial
  | cancelRun n => trivial

theorem Fail.moves {i j : Party} {e : PyExn} {w w' : World} (hne : j ≠ i)
    (hstep : Moves g plan gen j w w') (h : Fail g plan gen i e w) : Fail g plan gen i e w' := by
  cases i with
  | execute => exact Failed.moves h hne hstep
  | coroutine n => trivial
  | cancelRun n => trivial

/-- **Every party keeps to its steps.** -/
theorem body (hvalid : plan.Valid) (hinj : gen.Injective plan) (i : Party) (point : GoalRunner.Point)
    (w : World) (h : Pre g plan gen i point w) :
    wp (stepContract (system g plan gen).exec (Moves g plan gen) i) ((system g plan gen).code i point)
      (fun | .inl point' => Pre g plan gen i point' | .inr r => Post g plan gen i r) (Fail g plan gen i) w := by
  cases i with
  | execute =>
      have hround : wp (driver g plan gen) (g.execute plan gen point) (Onward g plan gen)
          (fun _ => Failed g plan gen) w := by
        cases point with
        | start => exact wp_start hvalid hinj h
        | pass run nodes outs =>
            have hpassing : Passing g plan gen run nodes outs w := h
            obtain ⟨rfl, _⟩ := hpassing
            exact wp_pass hvalid hinj h
      apply wp_seq hround
      intro next w hw
      cases next with
      | inl point' =>
          cases point' with
          | start => exact absurd hw id
          | pass run nodes outs => exact hw
      | inr report => exact hw
  | coroutine n => exact wp_seq (M := fun _ _ => True) (coroutine_body h fun _ => trivial) fun _ _ _ => trivial
  | cancelRun n => exact wp_seq (M := fun _ _ => True) (cancelRunRoute_body h fun _ _ _ => trivial) fun _ _ _ => trivial

/-- The outline of all runs of an accepted plan. -/
def outline (g : GoalRunner) (plan : Plan) (gen : Generated) (hvalid : plan.Valid)
    (hinj : gen.Injective plan) : Outline (system g plan gen) :=
  Outline.ofSteps (Moves g plan gen) (Pre g plan gen) (Post g plan gen) (Fail g plan gen)
    (fun _ _ _ _ _ hne hstep h => h.moves hne hstep) (fun _ _ _ _ _ hne hstep h => h.moves hne hstep)
    (fun _ _ _ _ _ hne hstep h => h.moves hne hstep) fun i point w h => by
      refine wp_mono (body hvalid hinj i point w h) ?_ fun _ _ h => h
      rintro (point' | r) w hx <;> exact hx

/-- Where every party stands at first. -/
abbrev begun (g : GoalRunner) (plan : Plan) (gen : Generated) (w : World) :
    Conf Party Op Ret PyExn GoalRunner.Point Result World :=
  (system g plan gen).init (fun _ => .start) w

variable {w : World} {c : Conf Party Op Ret PyExn GoalRunner.Point Result World}

theorem Fresh.holds (h : Fresh plan gen w) (hvalid : plan.Valid)
    (hsteps : (system g plan gen).Steps (begun g plan gen w) c) :
    (outline g plan gen hvalid h.injective).Holds c := by
  have hpreparing : Preparing g plan gen none [] w := h.preparing
  refine Outline.holds_steps _ (Outline.holds_init _ fun i => ?_) hsteps
  cases i with
  | execute => exact hpreparing
  | coroutine n => exact ⟨hpreparing.inv, fun c hlive => absurd hlive ((Preparing.alone.rested w hpreparing).idle n c)⟩
  | cancelRun n => exact hpreparing.inv

/-- **The invariant holds in every state of every run.** -/
theorem Fresh.inv (h : Fresh plan gen w) (hvalid : plan.Valid)
    (hsteps : (system g plan gen).Steps (begun g plan gen w) c) : Inv g plan gen c.world := by
  have hpreparing : Preparing g plan gen none [] w := h.preparing
  have hholds := h.holds hvalid (g := g) (.refl : (system g plan gen).Steps _ _)
  exact Outline.world_steps (outline g plan gen hvalid h.injective) (P := Inv g plan gen)
    (fun i _ w _ w' hguar hinv => (Inv.moves hinv hguar).1) hholds hpreparing.inv hsteps

theorem Fresh.returned (h : Fresh plan gen w) (hvalid : plan.Valid)
    (hsteps : (system g plan gen).Steps (begun g plan gen w) c) {r : Result}
    (hreturned : c.cur .execute = .ret (.inr r)) : Stopped g plan gen c.world ∨ Settled g plan gen c.world :=
  Outline.post_of_ret _ (h.holds hvalid hsteps) hreturned

theorem Fresh.raised (h : Fresh plan gen w) (hvalid : plan.Valid)
    (hsteps : (system g plan gen).Steps (begun g plan gen w) c) {e : PyExn}
    (hraised : c.cur .execute = .raise e) : Failed g plan gen c.world :=
  Outline.fail_of_raise _ (h.holds hvalid hsteps) hraised

/-! ### A plan that is not accepted -/

/-- Where a party may start again when the plan is not accepted: nothing has been done. -/
def Idle (w₀ : World) : Party → GoalRunner.Point → World → Prop
  | .execute, .pass .., _ => False
  | _, _, w => w = w₀

/-- **A plan that is not accepted changes nothing**: there is no run, and none to stop. -/
theorem Fresh.rejected (h : Fresh plan gen w) (hinvalid : ¬plan.Valid)
    (hsteps : (system g plan gen).Steps (begun g plan gen w) c) : c.world = w := by
  have hbody : ∀ i point w₁, Idle w i point w₁ →
      wp (stepContract (system g plan gen).exec (fun _ w w' => w' = w) i) ((system g plan gen).code i point)
        (fun | .inl point' => Idle w i point' | .inr _ => fun _ => True) (fun _ _ => True) w₁ := by
    intro i point w₁ hidle
    cases i with
    | execute =>
        cases point with
        | start =>
            apply wp_seq (M := fun _ _ => False)
            · show wp _ (g.start plan gen) _ _ _
              unfold GoalRunner.start
              rw [if_pos (show plan.validateDag ≠ [] from hinvalid)]
              trivial
            · exact fun _ _ hfalse => absurd hfalse id
        | pass run nodes outs => exact absurd hidle id
    | coroutine n =>
        apply wp_seq (M := fun _ _ => True)
        · unfold GoalRunner.coroutine
          simp only [Prog.bind_eq, Prog.op_bind]
          apply wp_call_step (fun w' => w' = w) hidle
          · rintro j w₁ w₂ - rfl hw
            exact hw
          · intro w₁ r w₂ hw hexec
            rw [hw] at hexec
            simp only [system, exec, h.coroutines, List.getElem?_nil] at hexec
            cases hexec
        · exact fun _ _ _ => trivial
    | cancelRun n =>
        apply wp_seq (M := fun _ _ => True)
        · unfold cancelRunRoute
          simp only [Prog.bind_eq, Prog.op_bind]
          apply wp_call_step (fun w' => w' = w) hidle
          · rintro j w₁ w₂ - rfl hw
            exact hw
          · intro w₁ r w₂ hw hexec
            subst hw
            simp only [system, exec, h.runs] at hexec
            split at hexec
            · next hr =>
                cases hexec
                subst hr
                exact ⟨rfl, trivial⟩
            · cases hexec
        · exact fun _ _ _ => trivial
  let O : Outline (system g plan gen) := Outline.ofSteps (fun _ w w' => w' = w) (Idle w)
    (fun _ _ _ => True) (fun _ _ _ => True) (fun _ _ _ _ _ _ heq h => heq ▸ h) (fun _ _ _ _ _ _ _ h => h)
    (fun _ _ _ _ _ _ _ h => h) fun i point w₁ hidle => by
      refine wp_mono (hbody i point w₁ hidle) ?_ fun _ _ h => h
      rintro (point' | r) w hx <;> exact hx
  have hholds : O.Holds (begun g plan gen w) := Outline.holds_init O fun i => by cases i <;> exact rfl
  exact Outline.world_steps O (P := fun w' => w' = w) (fun _ _ _ _ _ hguar hw => hguar.trans hw) hholds rfl hsteps

end Outline

end AtlasFlow.Reference
