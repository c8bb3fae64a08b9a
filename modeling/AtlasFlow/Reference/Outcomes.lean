import AtlasFlow.Reference.Runs

/-!
# What becomes of a run

In which states `execute` leaves its run: when it was not asked to stop, when the outside raised, and
when it was asked to stop.
-/

namespace AtlasFlow.Reference

open Concurrency

variable {g : GoalRunner} {plan : Plan} {gen : Generated} {w w' : World} {outs : List TaskOutcome}
  {state : RunState} {c c' : Conf Party Op Ret PyExn GoalRunner.Point Result World} {r : Result}

/-! ## Not asked to stop -/

/-- The run is settled: VERIFYING if all its tasks are SUCCEEDED and FAILED otherwise, and no task of it
is READY or RUNNING. -/
structure Settles (gen : Generated) (w : World) : Prop where
  run : ∃ run, w.db.findRun gen.runId = some run ∧ run.state ≠ .running ∧
    (run.state = .verifying ↔ ∀ t ∈ w.db.tasksOf gen.runId, t.state = .succeeded) ∧
    (run.state = .failed ↔ ¬∀ t ∈ w.db.tasksOf gen.runId, t.state = .succeeded)
  tasks : ∀ t ∈ w.db.tasksOf gen.runId, t.state ≠ .ready ∧ t.state ≠ .running

/-- Some task was refused the reservation of its first attempt. -/
def RefusedFirst (plan : Plan) (gen : Generated) (w : World) : Prop :=
  ∃ entry, Assigned plan gen entry ∧ (w.ledger.marks entry.1.id).refused = true

/-- Every node of a plan has a task. -/
theorem exists_assigned : (∃ entry, Assigned plan gen entry) ↔ plan.tasks ≠ [] := by
  constructor
  · rintro ⟨entry, id, hnode, _⟩
    exact List.ne_nil_of_mem (Plan.of_byId hnode).1
  · intro hne
    obtain ⟨node, hnode⟩ := List.exists_mem_of_ne_nil _ hne
    obtain ⟨last, hlast⟩ := Plan.exists_byId (Plan.mem_keys_byId.mpr (List.mem_map_of_mem hnode))
    exact ⟨(gen.task last, last), node.id, hlast, rfl⟩

/-- A task was refused if it is left READY. -/
theorem Settling.refused_iff (h : Settling g plan gen outs state w) (hinj : gen.Injective plan)
    {entry : Entry} {s : Share} (hentry : Assigned plan gen entry) (hview : View entry.1 s w) :
    (w.ledger.marks entry.1.id).refused = true ↔ s.state = .ready := by
  -- a share is determined by its world
  have hstate : ∀ s', View entry.1 s' w → s'.state = s.state := by
    intro s' hview'
    have hsame : s'.row entry.1 = s.row entry.1 := Option.some.inj (hview'.row.symm.trans hview.row)
    exact congrArg Task.state hsame
  constructor
  · intro hrefused
    rcases h.standing.seen h.inv h.results hinj hentry with ⟨_, _, o, s', _, _, _, hview', hconcluded⟩ | ⟨_, hview'⟩
    · rw [hview'.marks] at hrefused
      rw [← hstate s' hview']
      exact hconcluded.refused hrefused
    · rw [hview'.marks] at hrefused
      cases hrefused
  · intro hready
    obtain ⟨s', hview', hfate⟩ := h.fates entry hentry
    rw [← hstate s' hview'] at hready
    rw [hview'.marks]
    cases hfate <;> simp_all

/-- Whether a settled run is settled well. -/
theorem Settled.good_iff (h : Settled g plan gen w) (hinj : gen.Injective plan) :
    Settles gen w ↔ plan.tasks ≠ [] ∧ ¬RefusedFirst plan gen w := by
  obtain ⟨outs, state, hsettling, hverdict⟩ := h
  obtain ⟨hback, hforth⟩ := hsettling.rows (List.Perm.refl _)
  constructor
  · rintro ⟨⟨run, hrun, hmoved, hverifying, _⟩, htasks⟩
    rw [hsettling.run] at hrun
    cases hrun
    have hunrefused : ¬RefusedFirst plan gen w := by
      rintro ⟨entry, hentry, hrefused⟩
      obtain ⟨s, hview, _⟩ := hsettling.fates entry hentry
      have hready := (hsettling.refused_iff hinj hentry hview).mp hrefused
      exact (htasks _ (hforth entry s hentry hview)).1 hready
    refine ⟨?_, hunrefused⟩
    cases hverdict with
    | failed hfailed =>
        obtain ⟨entry, _, hentry, _⟩ := hfailed
        exact exists_assigned.mp ⟨entry, hentry⟩
    | verifying _ hsome => exact exists_assigned.mp hsome
    | undecided _ _ => exact absurd rfl hmoved
  · rintro ⟨hnonempty, hunrefused⟩
    constructor
    · refine ⟨_, hsettling.run, ?_⟩
      cases hverdict with
      | failed hfailed =>
          obtain ⟨entry, s, hentry, hview, hstate⟩ := hfailed
          have hnot : ¬∀ t ∈ w.db.tasksOf gen.runId, t.state = .succeeded := by
            intro hall
            have hsucceeded := hall _ (hforth entry s hentry hview)
            exact TaskState.noConfusion (hstate.symm.trans hsucceeded)
          exact ⟨nofun, ⟨nofun, fun hall => absurd hall hnot⟩, ⟨fun _ => hnot, fun _ => rfl⟩⟩
      | verifying hdone _ =>
          have hall : ∀ t ∈ w.db.tasksOf gen.runId, t.state = .succeeded := by
            intro t ht
            obtain ⟨entry, s, hentry, hview, _, rfl⟩ := hback t ht
            obtain ⟨row, hread, hsucceeded⟩ := hdone entry hentry
            cases hread.symm.trans hview.row
            exact hsucceeded
          exact ⟨nofun, ⟨fun _ => hall, fun _ => rfl⟩, ⟨nofun, fun hnot => absurd hall hnot⟩⟩
      | undecided _ hopen =>
          rcases hopen with hnone | ⟨entry, s, hentry, hview, hready⟩
          · obtain ⟨entry, hentry⟩ := exists_assigned.mpr hnonempty
            exact absurd hentry (hnone entry)
          · exact absurd ⟨entry, hentry, (hsettling.refused_iff hinj hentry hview).mpr hready⟩ hunrefused
    · intro t ht
      obtain ⟨entry, s, hentry, hview, hfate, rfl⟩ := hback t ht
      have hready : s.state ≠ .ready := fun hready =>
        hunrefused ⟨entry, hentry, (hsettling.refused_iff hinj hentry hview).mpr hready⟩
      refine ⟨hready, ?_⟩
      cases hfate <;> simp_all [Share.row]

/-- **A run that `execute` returns from is settled** exactly if its plan has tasks and each of them that was
tried got the reservation of its first attempt. -/
theorem run_settles_iff (g : GoalRunner) (plan : Plan) (gen : Generated) (w : World)
    (c : Conf Party Op Ret PyExn GoalRunner.Point Result World) (r : Result) (hvalid : plan.Valid)
    (hfresh : Fresh plan gen w) (hsteps : (system g plan gen).Steps (begun g plan gen w) c)
    (hreturned : c.cur .execute = .ret (.inr r)) (hunasked : c.world.ledger.accepted = false) :
    Settles gen c.world ↔ plan.tasks ≠ [] ∧ ¬RefusedFirst plan gen c.world := by
  rcases hfresh.returned hvalid hsteps hreturned with hstopped | hsettled
  · have haccepted := hstopped.accepted
    rw [hunasked] at haccepted
    cases haccepted
  · exact hsettled.good_iff hfresh.injective

/-! ### Schedules -/

deriving instance Inhabited for Run, Task, TaskNode

/-- What the outside does, the same at every call. -/
structure Surroundings where
  runner : Except PyExn RunnerResult := .ok { success := true }
  worktree : Except PyExn Worktree := .ok ⟨"", ⟨""⟩, "", ""⟩
  integration : Except PyExn IntegrationResult := .ok { integrated := true }
  launch : Except PyExn Unit := .ok ()

/-- The result of a `gather`, when its coroutines have returned. -/
def gathered : List Coroutine → Except PyExn (List TaskOutcome)
  | [] => .ok []
  | c :: cs =>
    match c.result with
    | some (.error e) => .error e
    | some (.ok outcome) => (gathered cs).map (outcome :: ·)
    | none => .error .cancelledError

/-- The answers to a party's calls; `n` is the number of a coroutine. -/
def answer (g : GoalRunner) (s : Surroundings) (n : Nat) : (o : Op) → World → Ret o
  | .loadRun runId, w => w.db.findRun runId
  | .loadTasks runId, w => w.db.tasksOf runId
  | .loadAttempts runId, w => w.db.attemptsOf runId
  | .newEvent, _ => ("event", "now")
  | .newAttempt, w => (⟨s!"attempt-{w.db.attempts.length}"⟩, "now")
  | .now, _ => "now"
  | .reserveAttempt, w => w.budget.reserveAttempt.1
  | .isRequested runId _, w => (w.requested.get? runId).isSome
  | .reason runId, w => (w.requested.get? runId).getD ""
  | .resolve name, _ => g.runners.contains name
  | .awaitRunner _, _ => s.runner
  | .cancelRunner _, _ => true
  | .cancelTask taskId, w => (w.active.get? taskId).isSome
  | .createWorktree .., _ => s.worktree
  | .commitAll .., _ => .ok true
  | .integrate .., _ => s.integration
  | .split command, _ => Shlex.split command
  | .launch _, _ => s.launch
  | .communicate, _ => .exited 0 ""
  | .gather .., w => w.coroutines.length
  | .join first count, w => gathered ((w.coroutines.drop first).take count)
  | .begin, w =>
    match w.coroutines[n]? with
    | some c => (c.run, c.entry)
    | none => (default, default)
  | .saveRun _, _ | .saveTask _, _ | .saveAttempt _, _ | .commitRun .., _ | .commitTask .., _
  | .commitAttempt .., _ | .publish _, _ | .saveEvidence _, _ | .recordDecision .., _
  | .recordObservation .., _ | .setBudget _, _ | .recordUsage _, _ | .request _, _ | .clear _, _
  | .startRunner .., _ | .finish _, _ => ()

/-- As many turns of one party. -/
def turns (g : GoalRunner) (s : Surroundings) (party : Party) (count : Nat) :
    List (Party × ((o : Op) → World → Ret o)) :=
  List.replicate count (party, answer g s (match party with | .coroutine n => n | _ => 0))

/-- Ids that tell the nodes apart. -/
def ids : Generated := ⟨⟨"run"⟩, "now", fun id => ⟨id⟩, fun _ => "now"⟩

theorem ids_injective (plan : Plan) : ids.Injective plan := fun _ _ _ _ h => congrArg TaskId.value h

theorem Fresh.of_empty (plan : Plan) : Fresh plan ids { db := {} } := by
  refine ⟨List.nodup_nil, ids_injective plan, rfl, ?_, List.nodup_nil, ?_, ?_, rfl, rfl, rfl, rfl⟩
  all_goals exact fun _ h => absurd h List.not_mem_nil

/-- A plan with a single task. -/
def single (node : TaskNode) : Plan := ⟨"goal", [node]⟩

def mockRunner : GoalRunner := { runners := ["mock"], runnerName := "mock" }

/-- A run of a plan with a single task, whose attempt succeeds. -/
def singleRun : Conf Party Op Ret PyExn GoalRunner.Point Result World :=
  let plan := single { id := "a", objective := "write" }
  (system mockRunner plan ids).play
    (turns mockRunner {} .execute 16 ++ turns mockRunner {} (.coroutine 0) 40 ++ turns mockRunner {} .execute 20)
    (begun mockRunner plan ids { db := {} })

theorem run_settles_iff_single : ∃ r, singleRun.cur .execute = .ret (.inr r) ∧
    (Settles ids singleRun.world ↔ (single { id := "a", objective := "write" }).tasks ≠ [] ∧
      ¬RefusedFirst (single { id := "a", objective := "write" }) ids singleRun.world) := by
  obtain ⟨r, hreturned⟩ := System.cur_of_result
    (show (System.result singleRun .execute).isSome = true by decide +kernel)
  refine ⟨r, hreturned, run_settles_iff mockRunner _ ids { db := {} } singleRun r ?_ (Fresh.of_empty _)
    (System.play_steps _ _ _) hreturned ?_⟩
  · show Plan.validateDag _ = []
    decide +kernel
  · decide +kernel

/-- A run of the empty plan. -/
def emptyRun : Conf Party Op Ret PyExn GoalRunner.Point Result World :=
  (system mockRunner ⟨"goal", []⟩ ids).play (turns mockRunner {} .execute 18)
    (begun mockRunner ⟨"goal", []⟩ ids { db := {} })

/-- `evaluate_run_completion` answers for a run without tasks before it looks at the run. -/
theorem empty_plan_left_running : Plan.Valid ⟨"goal", []⟩ ∧ Fresh ⟨"goal", []⟩ ids { db := {} } ∧
    (system mockRunner ⟨"goal", []⟩ ids).Steps (begun mockRunner ⟨"goal", []⟩ ids { db := {} }) emptyRun ∧
    (∃ r, emptyRun.cur .execute = .ret (.inr r)) ∧ emptyRun.world.ledger.accepted = false ∧
    ¬Settles ids emptyRun.world := by
  refine ⟨rfl, Fresh.of_empty _, System.play_steps _ _ _, ?_, ?_, ?_⟩
  · exact System.cur_of_result (by decide +kernel)
  · decide +kernel
  · rintro ⟨⟨run, hrun, hmoved, _⟩, _⟩
    have hstate : (emptyRun.world.db.findRun ids.runId).map Run.state = some .running := by decide +kernel
    rw [hrun] at hstate
    exact hmoved (Option.some.inj hstate)

/-! ## A call to the outside that raises -/

/-- `execute` has returned or raised. -/
def Over (c : Conf Party Op Ret PyExn GoalRunner.Point Result World) : Prop :=
  (∃ r, c.cur .execute = .ret (.inr r)) ∨ ∃ e, c.cur .execute = .raise e

/-- The run is not left alive: it is not RUNNING, no task of it is READY or RUNNING, and nothing is written
afterwards. -/
structure Quits (g : GoalRunner) (plan : Plan) (gen : Generated)
    (c : Conf Party Op Ret PyExn GoalRunner.Point Result World) : Prop where
  run : ∀ run, c.world.db.findRun gen.runId = some run → run.state ≠ .running
  tasks : ∀ t ∈ c.world.db.tasksOf gen.runId, t.state ≠ .ready ∧ t.state ≠ .running
  afterwards : ∀ c', (system g plan gen).Steps c c' → c'.world.db = c.world.db

/-- When `execute` is over and no coroutine is live, nothing is written any more. -/
theorem Over.db_eq (h : Over c) {hvalid : plan.Valid} {hinj : gen.Injective plan}
    (hholds : (outline g plan gen hvalid hinj).Holds c) (hidle : ∀ n k, ¬Live c.world n k)
    (hsteps : (system g plan gen).Steps c c') : c'.world.db = c.world.db := by
  suffices hall : c'.cur .execute = c.cur .execute ∧ c'.world.coroutines = c.world.coroutines ∧
      c'.world.db = c.world.db from hall.2.2
  induction hsteps with
  | refl => exact ⟨rfl, rfl, rfl⟩
  | @tail c₁ c₂ hpre hnext ih =>
      obtain ⟨hcur, hcoroutines, hdb⟩ := ih
      obtain ⟨l, hstep⟩ := hnext
      have hallowed := (Outline.holds_step _ (Outline.holds_steps _ hholds hpre) hstep).2
      have hover : ∀ {i}, i = Party.execute → (∀ o k, c₁.cur i ≠ .call o k) ∧ ∀ s, c₁.cur i ≠ .ret (.inl s) := by
        rintro i rfl
        rw [hcur]
        rcases h with ⟨r, hr⟩ | ⟨e, he⟩
        · rw [hr]
          exact ⟨fun o k => Prog.ret_ne_call _ o k, fun s heq => Sum.inr_ne_inl (Prog.ret.inj heq)⟩
        · rw [he]
          exact ⟨fun o k => Prog.raise_ne_call e o k, fun s => Prog.raise_ne_ret e _⟩
      cases hstep with
      | @call i o k r w' hcall hexec =>
          have hne : i ≠ .execute := fun heq => (hover heq).1 o k hcall
          refine ⟨(Function.update_of_ne (Ne.symm hne) _ _).trans hcur, ?_⟩
          have hmoves : Moves g plan gen i c₁.world w' := hallowed
          cases i with
          | execute => exact absurd rfl hne
          | coroutine n =>
              rcases hmoves with rfl | ⟨k, hwork⟩
              · exact ⟨hcoroutines, hdb⟩
              · have hlive : Live c.world n k := by
                  rw [Live, ← hcoroutines]
                  exact hwork.live
                exact absurd hlive (hidle n k)
          | cancelRun n =>
              rcases hmoves with rfl | hask
              · exact ⟨hcoroutines, hdb⟩
              · exact ⟨hask.coroutines.trans hcoroutines, hask.db.trans hdb⟩
      | @jump i s hjump =>
          have hne : i ≠ .execute := fun heq => (hover heq).2 s hjump
          exact ⟨(Function.update_of_ne (Ne.symm hne) _ _).trans hcur, hcoroutines, hdb⟩

/-- What is left when a settled run's gates raised what is handled. -/
theorem Settled.verifying (h : Settled g plan gen w) (hraised : w.ledger.raised ≠ []) :
    w.db.findRun gen.runId = some { g.running plan gen with state := .verifying } ∧
      ∀ t ∈ w.db.tasksOf gen.runId, t.state = .succeeded := by
  obtain ⟨outs, state, hsettling, hverdict⟩ := h
  obtain ⟨hdone, hsome⟩ := hsettling.gates hraised
  -- a task has one state
  have hone : ∀ entry s, Assigned plan gen entry → View entry.1 s w → s.state = .succeeded := by
    intro entry s hentry hview
    obtain ⟨row, hread, hsucceeded⟩ := hdone entry hentry
    cases hread.symm.trans hview.row
    exact hsucceeded
  have hall : ∀ t ∈ w.db.tasksOf gen.runId, t.state = .succeeded := by
    intro t ht
    obtain ⟨entry, s, hentry, hview, _, rfl⟩ := (hsettling.rows (List.Perm.refl _)).1 t ht
    exact hone entry s hentry hview
  refine ⟨?_, hall⟩
  cases hverdict with
  | failed hfailed =>
      obtain ⟨entry, s, hentry, hview, hstate⟩ := hfailed
      exact TaskState.noConfusion (hstate.symm.trans (hone entry s hentry hview))
  | verifying _ _ => exact hsettling.run
  | undecided _ hopen =>
      rcases hopen with hnone | ⟨entry, s, hentry, hview, hstate⟩
      · obtain ⟨entry, hentry⟩ := hsome
        exact absurd hentry (hnone entry)
      · exact TaskState.noConfusion (hstate.symm.trans (hone entry s hentry hview))

/-- **When a call to the outside has raised, the run is not left alive** exactly if every such call was the
launch of a gate whose exception `run_gate_command` handles. -/
theorem run_quits_iff (g : GoalRunner) (plan : Plan) (gen : Generated) (w : World)
    (c : Conf Party Op Ret PyExn GoalRunner.Point Result World) (hvalid : plan.Valid)
    (hfresh : Fresh plan gen w) (hsteps : (system g plan gen).Steps (begun g plan gen w) c)
    (hover : Over c) (hraised : c.world.ledger.raised ≠ []) :
    Quits g plan gen c ↔ ∀ x ∈ c.world.ledger.raised, x.handled = true := by
  have hholds := hfresh.holds hvalid hsteps
  have hfailed : Failed g plan gen c.world → (Quits g plan gen c ↔ ∀ x ∈ c.world.ledger.raised, x.handled = true) := by
    intro hfailed
    constructor
    · intro hquits
      exact absurd rfl (hquits.run _ hfailed.run)
    · intro hall
      obtain ⟨x, hx, hunhandled⟩ := hfailed.raised hraised
      rw [hall x hx] at hunhandled
      cases hunhandled
  rcases hover with ⟨r, hreturned⟩ | ⟨e, hexception⟩
  · rcases hfresh.returned hvalid hsteps hreturned with hstopped | hsettled
    · exact absurd hstopped.raised hraised
    · obtain ⟨hrun, htasks⟩ := hsettled.verifying hraised
      have hidle := (Settled.alone.rested c.world hsettled).idle
      constructor
      · obtain ⟨outs, state, hsettling, _⟩ := hsettled
        exact fun _ => hsettling.handled
      · intro _
        refine ⟨fun run hread => ?_, fun t ht => ?_, fun c' hsteps' => Over.db_eq (.inl ⟨r, hreturned⟩) hholds hidle hsteps'⟩
        · rw [hrun] at hread
          cases hread
          nofun
        · rw [htasks t ht]
          exact ⟨nofun, nofun⟩
  · exact hfailed (hfresh.raised hvalid hsteps hexception)

/-- A run whose declared gate command does not exist. -/
def gateRun : Conf Party Op Ret PyExn GoalRunner.Point Result World :=
  let g := { mockRunner with gateCommands := [(.tests, "pytest")] }
  let s : Surroundings := { launch := .error (.fileNotFoundError "pytest") }
  (system g (single { id := "a", objective := "write" }) ids).play
    (turns g s .execute 16 ++ turns g s (.coroutine 0) 40 ++ turns g s .execute 20)
    (begun g (single { id := "a", objective := "write" }) ids { db := {} })

theorem run_quits_iff_gate :
    Quits { mockRunner with gateCommands := [(.tests, "pytest")] } (single { id := "a", objective := "write" })
      ids gateRun ↔ ∀ x ∈ gateRun.world.ledger.raised, x.handled = true := by
  refine run_quits_iff { mockRunner with gateCommands := [(.tests, "pytest")] } _ ids { db := {} } gateRun ?_
    (Fresh.of_empty _) (System.play_steps _ _ _) ?_ ?_
  · show Plan.validateDag _ = []
    decide +kernel
  · exact .inl (System.cur_of_result (by decide +kernel))
  · decide +kernel

/-- A run with a runner that is not registered. -/
def unknownRunnerRun : Conf Party Op Ret PyExn GoalRunner.Point Result World :=
  let g := { mockRunner with runnerName := "ghost" }
  (system g (single { id := "a", objective := "write" }) ids).play
    (turns g {} .execute 16 ++ turns g {} (.coroutine 0) 40 ++ turns g {} .execute 20)
    (begun g (single { id := "a", objective := "write" }) ids { db := {} })

/-- `Harness.execute` raises `ValueError`, which nobody catches. -/
theorem unknown_runner_left_running :
    (single { id := "a", objective := "write" }).Valid ∧
    (system { mockRunner with runnerName := "ghost" } (single { id := "a", objective := "write" }) ids).Steps
      (begun { mockRunner with runnerName := "ghost" } (single { id := "a", objective := "write" }) ids
        { db := {} }) unknownRunnerRun ∧
    unknownRunnerRun.cur .execute = .raise (.valueError "Unknown runner: ghost") ∧
    unknownRunnerRun.world.ledger.raised =
      [⟨.coroutine 0, .resolve, .valueError "Unknown runner: ghost"⟩] ∧
    ¬Quits { mockRunner with runnerName := "ghost" } (single { id := "a", objective := "write" }) ids
      unknownRunnerRun := by
  refine ⟨?_, System.play_steps _ _ _, ?_, ?_, ?_⟩
  · show Plan.validateDag _ = []
    decide +kernel
  · exact System.cur_of_error (by decide +kernel)
  · decide +kernel
  · intro hquits
    have hstate : (unknownRunnerRun.world.db.findRun ids.runId).map Run.state = some .running := by
      decide +kernel
    obtain ⟨run, hrun, hrunning⟩ := Option.map_eq_some_iff.mp hstate
    exact hquits.run run hrun hrunning

/-! ## Asked to stop -/

/-- A request to stop the run was honoured: the run is CANCELLED, no task of it is PLANNED, READY or RUNNING,
the request has been removed, and no attempt was started after it. -/
structure Honoured (gen : Generated) (w : World) : Prop where
  run : ∃ run, w.db.findRun gen.runId = some run ∧ run.state = .cancelled
  tasks : ∀ t ∈ w.db.tasksOf gen.runId, t.state ≠ .planned ∧ t.state ≠ .ready ∧ t.state ≠ .running
  removed : w.requested.get? gen.runId = none
  started : w.ledger.startedAfter = false

/-- No request came late, none while a task held a reservation or was still to be granted one, no review was
cut off, and every exception of the outside was handled. -/
structure Timely (w : World) : Prop where
  late : w.ledger.late = false
  exposed : w.ledger.exposed = false
  cut : ∀ k ∈ w.coroutines, (w.ledger.marks k.task.id).cut = false
  handled : ∀ x ∈ w.ledger.raised, x.handled = true

theorem Stopped.honoured_iff (h : Stopped g plan gen w) : Honoured gen w ↔ Timely w := by
  have hlate := h.inv.books.after h.isOver
  constructor
  · intro hhonoured
    refine ⟨?_, ?_, h.cut, ?_⟩
    · rw [hlate, hhonoured.removed]
      rfl
    · by_contra hexposed
      rcases (h.inv.books.exposed (by simpa using hexposed)).2 with hstarted | hholding
      · exact absurd (hhonoured.started.symm.trans hstarted) nofun
      · exact absurd (h.holding.symm.trans hholding) nofun
    · rw [h.raised]
      exact fun _ hx => absurd hx List.not_mem_nil
  · intro htimely
    refine ⟨⟨_, h.run, rfl⟩, fun t ht => ?_, ?_, ?_⟩
    · have hclosed : ¬Scheduler.isOpen t.state = true := fun hopen => h.rows t ht hopen
      refine ⟨?_, ?_, ?_⟩ <;> exact fun hstate => hclosed (by rw [hstate]; rfl)
    · rw [htimely.late] at hlate
      exact Option.not_isSome_iff_eq_none.mp fun hsome => Bool.noConfusion (hlate.trans hsome)
    · by_contra hstarted
      have hexposed := h.inv.books.started (by simpa using hstarted)
      exact absurd (htimely.exposed.symm.trans hexposed) nofun

/-- A run that was settled was not asked in time. -/
theorem Settled.honoured_iff (h : Settled g plan gen w) (haccepted : w.ledger.accepted = true) :
    Honoured gen w ↔ Timely w := by
  obtain ⟨outs, state, hsettling, _⟩ := h
  have hlate := hsettling.late haccepted
  have hrequested := (hsettling.inv.books.after hsettling.isOver).symm.trans hlate
  constructor
  · intro hhonoured
    rw [hhonoured.removed] at hrequested
    cases hrequested
  · intro htimely
    exact absurd (htimely.late.symm.trans hlate) nofun

theorem Failed.honoured_iff (h : Failed g plan gen w) : Honoured gen w ↔ Timely w := by
  constructor
  · intro hhonoured
    obtain ⟨run, hrun, hcancelled⟩ := hhonoured.run
    rw [h.run] at hrun
    cases hrun
    cases hcancelled
  · intro htimely
    rcases h.cause with ⟨x, hx, hunhandled⟩ | ⟨n, k, _, hk, _, hcut⟩
    · cases (htimely.handled x hx).symm.trans hunhandled
    · cases (htimely.cut k (List.mem_of_getElem? hk)).symm.trans hcut

/-- **An accepted request is honoured** exactly if it came in time. -/
theorem cancel_honoured_iff (g : GoalRunner) (plan : Plan) (gen : Generated) (w : World)
    (c : Conf Party Op Ret PyExn GoalRunner.Point Result World) (hfresh : Fresh plan gen w)
    (hsteps : (system g plan gen).Steps (begun g plan gen w) c) (hover : Over c)
    (haccepted : c.world.ledger.accepted = true) : Honoured gen c.world ↔ Timely c.world := by
  by_cases hvalid : plan.Valid
  · rcases hover with ⟨r, hreturned⟩ | ⟨e, hraised⟩
    · rcases hfresh.returned hvalid hsteps hreturned with hstopped | hsettled
      · exact hstopped.honoured_iff
      · exact hsettled.honoured_iff haccepted
    · exact (hfresh.raised hvalid hsteps hraised).honoured_iff
  · -- there is no run to stop
    rw [hfresh.rejected hvalid hsteps, hfresh.ledger] at haccepted
    cases haccepted

/-- A run that is asked to stop during its attempt. -/
def attemptCancelledRun : Conf Party Op Ret PyExn GoalRunner.Point Result World :=
  let s : Surroundings := { runner := .error .cancelledError }
  (system mockRunner (single { id := "a", objective := "write" }) ids).play
    (turns mockRunner s .execute 16 ++ turns mockRunner s (.coroutine 0) 21 ++
      turns mockRunner s (.cancelRun 0) 5 ++ turns mockRunner s (.coroutine 0) 40 ++
      turns mockRunner s .execute 40)
    (begun mockRunner (single { id := "a", objective := "write" }) ids { db := {} })

theorem cancel_honoured_iff_attempt :
    attemptCancelledRun.world.db.runs.map Run.state = [.cancelled] ∧
      (Honoured ids attemptCancelledRun.world ↔ Timely attemptCancelledRun.world) := by
  refine ⟨by decide +kernel, cancel_honoured_iff mockRunner (single { id := "a", objective := "write" }) ids
    { db := {} } attemptCancelledRun (Fresh.of_empty _) (System.play_steps _ _ _) ?_ ?_⟩
  · exact .inl (System.cur_of_result (by decide +kernel))
  · decide +kernel

/-- A run that is asked to stop when `execute` has asked for the last time. -/
def lateRun : Conf Party Op Ret PyExn GoalRunner.Point Result World :=
  (system mockRunner (single { id := "a", objective := "write" }) ids).play
    (turns mockRunner {} .execute 16 ++ turns mockRunner {} (.coroutine 0) 40 ++ turns mockRunner {} .execute 5 ++
      turns mockRunner {} (.cancelRun 0) 5 ++ turns mockRunner {} .execute 20)
    (begun mockRunner (single { id := "a", objective := "write" }) ids { db := {} })

/-- The request is accepted while the run is RUNNING, and the run goes on to VERIFYING. -/
theorem late_request_ignored :
    Fresh (single { id := "a", objective := "write" }) ids { db := {} } ∧
    (system mockRunner (single { id := "a", objective := "write" }) ids).Steps
      (begun mockRunner (single { id := "a", objective := "write" }) ids { db := {} }) lateRun ∧
    Over lateRun ∧ lateRun.world.ledger.accepted = true ∧ ¬Honoured ids lateRun.world := by
  refine ⟨Fresh.of_empty _, System.play_steps _ _ _, ?_, ?_, ?_⟩
  · exact .inl (System.cur_of_result (by decide +kernel))
  · decide +kernel
  · intro hhonoured
    have hstate : (lateRun.world.db.findRun ids.runId).map Run.state = some .verifying := by decide +kernel
    obtain ⟨run, hrun, hcancelled⟩ := hhonoured.run
    rw [hrun, Option.map_some, hcancelled] at hstate
    cases hstate

end AtlasFlow.Reference
