import AtlasFlow.Reference.Parties

/-!
# `execute`, in a run

Between two batches no coroutine is live and every task of the run is as a coroutine has left it, or
untouched (`Between`). A pass gathers batches of ready tasks; after the loop the run is stopped or
settled by what the tasks have become.
-/

namespace AtlasFlow.Reference

open Concurrency

section Standing

variable {g : GoalRunner} {plan : Plan} {gen : Generated} {w w' : World} {c : Coroutine} {n : Nat}
  {outs : List TaskOutcome} {batch rest : List Entry}

/-- Every task of the run is as a coroutine has left it, or untouched, or a coroutine works on it. -/
structure Standing (g : GoalRunner) (plan : Plan) (gen : Generated) (w : World) : Prop where
  rested : ∀ (n : Nat) (c : Coroutine) result, w.coroutines[n]? = some c → c.result = some result →
    ∃ s, View c.task s w ∧ Left g c.entry.2 result s
  untouched : ∀ entry, Assigned plan gen entry → (∀ c ∈ w.coroutines, c.task.id ≠ entry.1.id) →
    View entry.1 {} w

/-- What `execute` knows of its run while its tasks are worked on. -/
structure Driving (g : GoalRunner) (plan : Plan) (gen : Generated) (w : World) : Prop where
  inv : Inv g plan gen w
  standing : Standing g plan gen w
  run : w.db.findRun gen.runId = some (g.running plan gen)
  isOver : w.ledger.isOver = false
  own : ∀ x ∈ w.ledger.raised, x.party ≠ .execute

/-- Between two batches: the coroutines have ended, with these outcomes. -/
structure Between (g : GoalRunner) (plan : Plan) (gen : Generated) (outs : List TaskOutcome)
    (w : World) : Prop extends Driving g plan gen w where
  results : w.coroutines.map Coroutine.result = outs.map fun o => some (.ok o)

/-- While a batch is awaited. -/
structure Joining (g : GoalRunner) (plan : Plan) (gen : Generated) (outs : List TaskOutcome)
    (batch : List Entry) (w : World) : Prop extends Driving g plan gen w where
  older : ∀ (n : Nat) o, outs[n]? = some o →
    ∃ c : Coroutine, w.coroutines[n]? = some c ∧ c.result = some (.ok o)
  newer : (w.coroutines.map Coroutine.entry).drop outs.length = batch

/-- Entries that coroutines may be created for. -/
structure Pending (plan : Plan) (gen : Generated) (rest : List Entry) (w : World) : Prop where
  assigned : ∀ e ∈ rest, Assigned plan gen e
  unspawned : ∀ e ∈ rest, ∀ c ∈ w.coroutines, c.task.id ≠ e.1.id
  distinct : (rest.map fun e => e.1.id).Nodup
  ready : ∀ e ∈ rest, ∀ dep ∈ e.1.dependencies, Done w dep

/-- Coroutines with these results have returned. -/
theorem rested_of_results (h : w.coroutines.map Coroutine.result = outs.map fun o => some (.ok o)) :
    Rested w := by
  intro n c hc
  have hmem : c.result ∈ w.coroutines.map Coroutine.result :=
    List.mem_map_of_mem (List.mem_of_getElem? hc)
  rw [h] at hmem
  obtain ⟨o, _, ho⟩ := List.mem_map.mp hmem
  exact ⟨o, ho.symm⟩

theorem Between.rested (h : Between g plan gen outs w) : Rested w := rested_of_results h.results

theorem Between.idle (h : Between g plan gen outs w) : ∀ n c, ¬Live w n c := h.rested.idle

theorem Done.ask (hask : Ask g plan gen w w') {id : TaskId} (h : Done w id) : Done w' id := by
  unfold Done
  rw [hask.db]
  exact h

/-! ### Interference -/

theorem Standing.ask (h : Standing g plan gen w) (hask : Ask g plan gen w w') :
    Standing g plan gen w' := by
  constructor
  · intro n c result hc hresult
    rw [hask.coroutines] at hc
    obtain ⟨s, hview, hleft⟩ := h.rested n c result hc hresult
    exact ⟨s, hview.ask hask, hleft⟩
  · intro entry hentry hfree
    rw [hask.coroutines] at hfree
    exact (h.untouched entry hentry hfree).ask hask

theorem Driving.ask (h : Driving g plan gen w) (hask : Ask g plan gen w w') : Driving g plan gen w' where
  inv := hask.inv
  standing := h.standing.ask hask
  run := by rw [hask.db]; exact h.run
  isOver := hask.isOver.trans h.isOver
  own := by rw [hask.raised]; exact h.own

/-- A coroutine that works keeps the tasks of the coroutines. -/
theorem Work.entries (h : Work g plan gen n c w w') :
    w'.coroutines.map Coroutine.entry = w.coroutines.map Coroutine.entry := by
  rcases h.coroutines with heq | ⟨result, s, heq, _⟩
  · rw [heq]
  · rw [heq]
    exact map_finish (w := w) (n := n) Coroutine.entry fun _ _ => rfl

theorem Work.tasks (h : Work g plan gen n c w w') {id : TaskId}
    (hid : ∀ c ∈ w'.coroutines, c.task.id ≠ id) : ∀ c ∈ w.coroutines, c.task.id ≠ id := by
  intro c' hc'
  have hmem : c'.entry ∈ w'.coroutines.map Coroutine.entry := by
    rw [h.entries]
    exact List.mem_map_of_mem hc'
  obtain ⟨c'', hc'', heq⟩ := List.mem_map.mp hmem
  have hne := hid c'' hc''
  rw [Coroutine.task, heq] at hne
  exact hne

theorem Driving.work (h : Driving g plan gen w) (hwork : Work g plan gen n c w w') :
    Driving g plan gen w' := by
  refine ⟨hwork.inv, ⟨?_, ?_⟩, ?_, ?_, ?_⟩
  · intro m c' result hc' hresult
    by_cases hm : m = n
    · subst hm
      rcases hwork.coroutines with heq | ⟨result', s, heq, hview, hleft⟩
      · rw [heq] at hc'
        cases hc'.symm.trans hwork.live.1
        rw [hwork.live.2] at hresult
        cases hresult
      · rw [heq, List.getElem?_modify, hwork.live.1] at hc'
        simp only [Option.map_eq_map, if_true, Option.map_some, Option.some.injEq] at hc'
        subst hc'
        cases hresult
        exact ⟨s, hview, hleft⟩
    · have hold : w.coroutines[m]? = some c' := by
        rcases hwork.coroutines with heq | ⟨result', s, heq, _⟩
        · rwa [heq] at hc'
        · rw [heq, List.getElem?_modify] at hc'
          simpa [Ne.symm hm] using hc'
      obtain ⟨s, hview, hleft⟩ := h.standing.rested m c' result hold hresult
      refine ⟨s, hview.touch hwork.touch ?_, hleft⟩
      exact fun heq => hm (h.inv.eq_of_task hold hwork.live.1 heq)
  · intro entry hentry hfree
    have hfree' := hwork.tasks hfree
    refine (h.standing.untouched entry hentry hfree').touch hwork.touch ?_
    exact Ne.symm (hfree' c (List.mem_of_getElem? hwork.live.1))
  · rw [Database.findRun, hwork.touch.runs]
    exact h.run
  · exact hwork.touch.isOver.trans h.isOver
  · obtain ⟨new, hnew, hparty⟩ := hwork.touch.raised
    rw [hnew]
    intro x hx
    rcases List.mem_append.mp hx with hold | hlast
    · exact h.own x hold
    · rw [(hparty x hlast).1]
      rintro ⟨⟩

theorem Pending.ask (h : Pending plan gen rest w) (hask : Ask g plan gen w w') :
    Pending plan gen rest w' where
  assigned := h.assigned
  unspawned := by rw [hask.coroutines]; exact h.unspawned
  distinct := h.distinct
  ready e he dep hdep := (h.ready e he dep hdep).ask hask

theorem Pending.work (h : Pending plan gen rest w) (hwork : Work g plan gen n c w w') :
    Pending plan gen rest w' where
  assigned := h.assigned
  unspawned e he c' hc' := by
    have hmem : c'.entry ∈ w.coroutines.map Coroutine.entry := by
      rw [← hwork.entries]
      exact List.mem_map_of_mem hc'
    obtain ⟨c₀, hc₀, heq⟩ := List.mem_map.mp hmem
    have hne := h.unspawned e he c₀ hc₀
    rw [Coroutine.task, heq] at hne
    exact hne
  distinct := h.distinct
  ready e he dep hdep := hwork.touch.done_mono (h.ready e he dep hdep)

/-- Between two batches only requests come in. -/
theorem Between.others (h : Between g plan gen outs w) {party : Party} (hparty : party ≠ .execute)
    (hstep : Moves g plan gen party w w') : w' = w ∨ Ask g plan gen w w' := by
  cases party with
  | execute => exact absurd rfl hparty
  | coroutine n =>
      rcases hstep with rfl | ⟨c, hwork⟩
      · exact .inl rfl
      · exact absurd hwork.live (h.idle n c)
  | cancelRun n => exact hstep

theorem Between.ask (h : Between g plan gen outs w) (hask : Ask g plan gen w w') :
    Between g plan gen outs w' :=
  ⟨h.toDriving.ask hask, by rw [hask.coroutines]; exact h.results⟩

theorem Joining.moves (h : Joining g plan gen outs batch w) {party : Party}
    (hparty : party ≠ .execute) (hstep : Moves g plan gen party w w') :
    Joining g plan gen outs batch w' := by
  cases party with
  | execute => exact absurd rfl hparty
  | coroutine n =>
      rcases hstep with rfl | ⟨c, hwork⟩
      · exact h
      · refine ⟨h.toDriving.work hwork, fun m o ho => ?_, by rw [hwork.entries]; exact h.newer⟩
        obtain ⟨c', hc', hresult⟩ := h.older m o ho
        have hm : m ≠ n := by
          rintro rfl
          cases hc'.symm.trans hwork.live.1
          rw [hwork.live.2] at hresult
          cases hresult
        exact ⟨c', hwork.coroutine hc' hm, hresult⟩
  | cancelRun n =>
      rcases hstep with rfl | hask
      · exact h
      · refine ⟨h.toDriving.ask hask, ?_, ?_⟩
        · rw [hask.coroutines]
          exact h.older
        · rw [hask.coroutines]
          exact h.newer

theorem Pending.moves (h : Pending plan gen rest w) {party : Party} (hparty : party ≠ .execute)
    (hstep : Moves g plan gen party w w') : Pending plan gen rest w' := by
  cases party with
  | execute => exact absurd rfl hparty
  | coroutine n =>
      rcases hstep with rfl | ⟨c, hwork⟩
      · exact h
      · exact h.work hwork
  | cancelRun n =>
      rcases hstep with rfl | hask
      · exact h
      · exact h.ask hask

end Standing

/-! ## One batch -/

section Batch

variable {g : GoalRunner} {plan : Plan} {gen : Generated} {w w' : World} {c : Coroutine} {n : Nat}
  {outs : List TaskOutcome} {batch rest : List Entry} {ready : List Entry}

/-- The coroutines after `gather`. -/
def World.gather (run : Run) (batch : List Entry) (w : World) : World :=
  { w with coroutines := w.coroutines ++ batch.map fun entry => { run, entry } }

/-- A coroutine after `gather` was there before, or is new. -/
theorem gather_cases {run : Run} (hc : (w.gather run batch).coroutines[n]? = some c) :
    w.coroutines[n]? = some c ∨
      w.coroutines.length ≤ n ∧ ∃ entry ∈ batch, c = { run, entry } := by
  unfold World.gather at hc
  rcases Nat.lt_or_ge n w.coroutines.length with hlt | hge
  · rw [List.getElem?_append_left hlt] at hc
    exact .inl hc
  · rw [List.getElem?_append_right hge] at hc
    obtain ⟨entry, hentry, heq⟩ := List.mem_map.mp (List.mem_of_getElem? hc)
    exact .inr ⟨hge, entry, hentry, heq.symm⟩

theorem gather_of_some {run : Run} (hc : w.coroutines[n]? = some c) :
    (w.gather run batch).coroutines[n]? = some c := by
  obtain ⟨hn, _⟩ := List.getElem?_eq_some_iff.mp hc
  rw [World.gather, List.getElem?_append_left hn]
  exact hc

/-- Nothing has happened to a task no coroutine was created for. -/
theorem Pending.view (h : Pending plan gen rest w) (hd : Driving g plan gen w) {entry : Entry}
    (hentry : entry ∈ rest) : View entry.1 {} w :=
  hd.standing.untouched entry (h.assigned entry hentry) (h.unspawned entry hentry)

theorem View.gather {t : Task} {s : Share} {run : Run} (h : View t s w) :
    View t s (w.gather run batch) :=
  ⟨h.row, h.opened, h.model, h.marks, h.evidence, h.asked⟩

/-- **A batch of ready tasks keeps the invariant.** -/
theorem Between.gather_inv (h : Between g plan gen outs w) (hp : Pending plan gen batch w)
    (hbatch : batch ∈ GoalRunner.parallelBatches g.maxParallelTasks ready) :
    Inv g plan gen (w.gather (g.running plan gen) batch) := by
  have hinv := h.inv
  have hmarks : ∀ entry ∈ batch, w.ledger.marks entry.1.id = {} := fun entry hentry =>
    (hp.view h.toDriving hentry).marks
  have hevidence : ∀ entry ∈ batch, w.evidenceOf entry.1.id = [] := fun entry hentry =>
    (hp.view h.toDriving hentry).evidence
  constructor
  case keyed => exact hinv.keyed
  case rows => exact hinv.rows
  case spawned =>
    intro n c hc
    rcases gather_cases hc with hold | ⟨_, entry, hentry, rfl⟩
    · exact hinv.spawned n c hold
    · exact ⟨rfl, hp.assigned entry hentry⟩
  case distinct =>
    unfold World.gather
    rw [List.map_append, List.nodup_append, List.map_map]
    refine ⟨hinv.distinct, hp.distinct, ?_⟩
    intro a ha b hb heq
    obtain ⟨c, hc, rfl⟩ := List.mem_map.mp ha
    obtain ⟨entry, hentry, rfl⟩ := List.mem_map.mp hb
    exact hp.unspawned entry hentry c hc heq
  case ready =>
    intro n c hc dep hdep
    rcases gather_cases hc with hold | ⟨_, entry, hentry, rfl⟩
    · exact hinv.ready n c hold dep hdep
    · exact hp.ready entry hentry dep hdep
  case batch =>
    intro _
    refine ⟨w.coroutines.length, ready, ?_, fun n c hlive => ?_⟩
    · have hdrop : ((w.gather (g.running plan gen) batch).coroutines.drop w.coroutines.length).map
          Coroutine.entry = batch := by
        simp [World.gather, Function.comp_def]
      rw [hdrop]
      exact hbatch
    · rcases gather_cases hlive.1 with hold | ⟨hge, _⟩
      · exact absurd ⟨hold, hlive.2⟩ (h.idle n c)
      · exact hge
  case closed =>
    intro a ha hopen entry hentry htask
    obtain ⟨n, c, hlive, _⟩ := hinv.closed a ha hopen entry hentry htask
    exact absurd hlive (h.idle n c)
  case books =>
    have hholding : (w.gather (g.running plan gen) batch).holding = w.holding := by
      have hnone : (batch.any fun entry => (w.ledger.marks entry.1.id).reserved) = false := by
        apply List.any_eq_false.mpr
        intro entry hentry
        rw [hmarks entry hentry]
        nofun
      simp [World.holding, World.gather, List.any_append, List.any_map, Function.comp_def, hnone]
    obtain ⟨h₁, h₂, h₃, h₄, h₅, h₆, h₇⟩ := hinv.books
    rw [← hholding] at h₄ h₅
    exact ⟨h₁, h₂, h₃, h₄, h₅, h₆, h₇⟩
  case proper =>
    intro n c hc
    rcases gather_cases hc with hold | ⟨_, entry, hentry, rfl⟩
    · exact hinv.proper n c hold
    · show Proper entry.2 (w.ledger.marks entry.1.id) (w.evidenceOf entry.1.id)
      rw [hmarks entry hentry, hevidence entry hentry]
      exact Proper.of_nil rfl
  case raised =>
    intro x hx
    rcases hinv.raised x hx with hexecute | ⟨n, c, hparty, hkind, hc, hmarked⟩
    · exact .inl hexecute
    · exact .inr ⟨n, c, hparty, hkind, gather_of_some hc, hmarked⟩
  case noted =>
    intro n c hc hmarked
    rcases gather_cases hc with hold | ⟨_, entry, hentry, rfl⟩
    · exact hinv.noted n c hold hmarked
    · have hmarked' : (w.ledger.marks entry.1.id).raised = true := hmarked
      rw [hmarks entry hentry] at hmarked'
      cases hmarked'
  case waiting => exact fun _ _ _ => h.isOver
  case unmarked =>
    intro entry hentry hfree
    exact hinv.unmarked entry hentry fun c hc => hfree c (List.mem_append_left _ hc)
  case driven => exact fun _ => h.run
  case working =>
    intro row hrow hrunId hrunning
    obtain ⟨n, c, hc, hworking, hid⟩ := hinv.working row hrow hrunId hrunning
    exact ⟨n, c, gather_of_some hc, hworking, hid⟩
  case owned => exact hinv.owned

theorem Between.gather (h : Between g plan gen outs w) (hp : Pending plan gen batch w)
    (hbatch : batch ∈ GoalRunner.parallelBatches g.maxParallelTasks ready) :
    Drive g plan gen w (w.gather (g.running plan gen) batch) ∧
      Joining g plan gen outs batch (w.gather (g.running plan gen) batch) := by
  have hinv := h.gather_inv hp hbatch
  have hlength : w.coroutines.length = outs.length := by
    have := congrArg List.length h.results
    simpa using this
  refine ⟨⟨hinv, h.idle, id, ?_⟩, ⟨⟨hinv, ⟨?_, ?_⟩, h.run, h.isOver, h.own⟩, ?_, ?_⟩⟩
  · intro n c hlive
    rcases gather_cases hlive.1 with hold | ⟨_, entry, hentry, rfl⟩
    · exact absurd ⟨hold, hlive.2⟩ (h.idle n c)
    · exact (hp.view h.toDriving hentry).gather
  · intro n c result hc hresult
    rcases gather_cases hc with hold | ⟨_, entry, _, rfl⟩
    · obtain ⟨s, hview, hleft⟩ := h.standing.rested n c result hold hresult
      exact ⟨s, hview.gather, hleft⟩
    · cases hresult
  · intro entry hentry hfree
    have hfree' : ∀ c ∈ w.coroutines, c.task.id ≠ entry.1.id :=
      fun c hc => hfree c (List.mem_append_left _ hc)
    exact (h.standing.untouched entry hentry hfree').gather
  · intro n o ho
    have hget := congrArg (fun l => l[n]?) h.results
    simp only [List.getElem?_map, ho, Option.map_some, Option.map_eq_some_iff] at hget
    obtain ⟨c, hc, hresult⟩ := hget
    exact ⟨c, gather_of_some hc, hresult⟩
  · rw [World.gather, List.map_append, ← hlength, ← List.length_map Coroutine.entry, List.drop_left]
    simp [Function.comp_def]

/-- An exception that `run_gate_command` makes a failed gate of. -/
def Raise.handled (x : Raise) : Bool :=
  match x.outside, x.error with
  | .launch, .fileNotFoundError _ | .launch, .permissionError _ => true
  | _, _ => false

theorem Raise.not_handled {x : Raise} (h : x.outside.ofExecute = false) : x.handled = false := by
  obtain ⟨party, outside, error⟩ := x
  cases outside <;> first | rfl | cases h

/-- How `execute` leaves its run when it raises. -/
structure Failed (g : GoalRunner) (plan : Plan) (gen : Generated) (w : World) : Prop where
  inv : Inv g plan gen w
  run : w.db.findRun gen.runId = some (g.running plan gen)
  raised : w.ledger.raised ≠ [] → ∃ x ∈ w.ledger.raised, x.handled = false
  cause : (∃ x ∈ w.ledger.raised, x.handled = false) ∨ ∃ (n : Nat) (c : Coroutine) (result : _),
    w.coroutines[n]? = some c ∧ c.result = some result ∧ (w.ledger.marks c.task.id).cut = true

/-- A coroutine that raised makes `execute` raise. -/
theorem Driving.failed (h : Driving g plan gen w) {e : PyExn} (hc : w.coroutines[n]? = some c)
    (hresult : c.result = some (.error e)) : Failed g plan gen w := by
  have hforeign : ∀ x ∈ w.ledger.raised, x.handled = false := by
    intro x hx
    rcases h.inv.raised x hx with ⟨hparty, _⟩ | ⟨_, _, _, hkind, _⟩
    · exact absurd hparty (h.own x hx)
    · exact Raise.not_handled hkind
  refine ⟨h.inv, h.run, fun hne => ?_, ?_⟩
  · obtain ⟨x, hx⟩ := List.exists_mem_of_ne_nil _ hne
    exact ⟨x, hx, hforeign x hx⟩
  · obtain ⟨s, hview, hleft⟩ := h.standing.rested n c _ hc hresult
    have hbroken : Broken s := hleft
    rcases hbroken.cause with hraised | hcut
    · rw [← hview.marks] at hraised
      obtain ⟨x, hx, _⟩ := h.inv.noted n c hc hraised
      exact .inl ⟨x, hx, hforeign x hx⟩
    · rw [← hview.marks] at hcut
      exact .inr ⟨n, c, _, hc, hresult, hcut⟩

theorem Failed.moves (h : Failed g plan gen w) {party : Party} (hparty : party ≠ .execute)
    (hstep : Moves g plan gen party w w') : Failed g plan gen w' := by
  cases party with
  | execute => exact absurd rfl hparty
  | coroutine m =>
      rcases hstep with rfl | ⟨c', hwork⟩
      · exact h
      · obtain ⟨new, hnew, hforeign⟩ := hwork.touch.raised
        have hold : (∃ x ∈ w.ledger.raised, x.handled = false) →
            ∃ x ∈ w'.ledger.raised, x.handled = false := by
          intro ⟨x, hx, hh⟩
          exact ⟨x, by rw [hnew]; exact List.mem_append_left _ hx, hh⟩
        refine ⟨hwork.inv, by rw [Database.findRun, hwork.touch.runs]; exact h.run, ?_, ?_⟩
        · intro hne
          by_cases hempty : w.ledger.raised = []
          · rw [hnew, hempty, List.nil_append] at hne ⊢
            obtain ⟨x, hx⟩ := List.exists_mem_of_ne_nil _ hne
            exact ⟨x, hx, Raise.not_handled (hforeign x hx).2⟩
          · exact hold (h.raised hempty)
        · rcases h.cause with hraised | ⟨n, c, result, hc, hresult, hcut⟩
          · exact .inl (hold hraised)
          · right
            have hn : n ≠ m := by
              rintro rfl
              cases hc.symm.trans hwork.live.1
              rw [hwork.live.2] at hresult
              cases hresult
            refine ⟨n, c, result, hwork.coroutine hc hn, hresult, ?_⟩
            rw [hwork.touch.marks _ fun heq => hn (h.inv.eq_of_task hc hwork.live.1 heq)]
            exact hcut
  | cancelRun m =>
      rcases hstep with rfl | hask
      · exact h
      · refine ⟨hask.inv, by rw [hask.db]; exact h.run, ?_, ?_⟩
        · rw [hask.raised]
          exact h.raised
        · rw [hask.raised, hask.coroutines, hask.marks]
          exact h.cause

/-- What `gather` answers is what its coroutines returned, in order. -/
theorem results_of_joined {cs : List Coroutine} {outcomes : List TaskOutcome}
    (h : joined cs (.ok outcomes) = true) :
    cs.map Coroutine.result = outcomes.map fun o => some (.ok o) := by
  simp only [joined, Bool.decide_and, Bool.and_eq_true, decide_eq_true_eq] at h
  induction cs generalizing outcomes with
  | nil =>
      have := List.length_eq_zero_iff.mp h.1.symm
      subst this
      rfl
  | cons c cs ih =>
      cases outcomes with
      | nil => exact absurd h.1 nofun
      | cons o outcomes =>
          obtain ⟨hcount, hall⟩ := h
          rw [List.zip_cons_cons, List.all_cons, Bool.and_eq_true] at hall
          have hfirst : c.result = some (.ok o) := by
            have hc := hall.1
            dsimp only at hc
            split at hc
            · next outcome hresult =>
                rw [hresult, of_decide_eq_true hc]
            · cases hc
          rw [List.map_cons, List.map_cons, hfirst, ih ⟨by simpa using hcount, hall.2⟩]

/-- **A batch that has been joined**: all its coroutines returned, or one of them raised. -/
theorem Joining.join (h : Joining g plan gen outs batch w) {r : Except PyExn (List TaskOutcome)}
    (hjoined : joined ((w.coroutines.drop outs.length).take batch.length) r = true) :
    match r with
    | .ok outcomes => Between g plan gen (outs ++ outcomes) w
    | .error _ => Failed g plan gen w := by
  have hlength : (w.coroutines.drop outs.length).length = batch.length := by
    have := congrArg List.length h.newer
    simpa using this
  rw [← hlength, List.take_length] at hjoined
  cases r with
  | error e =>
      simp only [joined, List.any_eq_true] at hjoined
      obtain ⟨c, hc, hresult⟩ := hjoined
      obtain ⟨n, hn⟩ := List.mem_iff_getElem?.mp (List.mem_of_mem_drop hc)
      split at hresult
      · next e' hread =>
          exact h.toDriving.failed hn hread
      · cases hresult
  | ok outcomes =>
      refine ⟨h.toDriving, ?_⟩
      have holder : (w.coroutines.take outs.length).map Coroutine.result = outs.map fun o => some (.ok o) := by
        apply List.ext_getElem?
        intro i
        rw [List.getElem?_map, List.getElem?_map, List.getElem?_take]
        split
        · next hi =>
            have ho := List.getElem?_eq_getElem hi
            obtain ⟨c, hc, hresult⟩ := h.older i _ ho
            rw [hc, ho, Option.map_some, Option.map_some, hresult]
        · next hi =>
            rw [List.getElem?_eq_none (Nat.not_lt.mp hi)]
            rfl
      rw [List.map_append, ← holder, ← results_of_joined hjoined, ← List.map_append, List.take_append_drop]

theorem Pending.left (h : Pending plan gen (batch ++ rest) w) : Pending plan gen batch w where
  assigned e he := h.assigned e (List.mem_append_left _ he)
  unspawned e he := h.unspawned e (List.mem_append_left _ he)
  distinct := by
    have := h.distinct
    rw [List.map_append] at this
    exact this.of_append_left
  ready e he := h.ready e (List.mem_append_left _ he)

/-- What is left when a batch has been gathered. -/
theorem Pending.gather {run : Run} (h : Pending plan gen (batch ++ rest) w) :
    Pending plan gen rest (w.gather run batch) where
  assigned e he := h.assigned e (List.mem_append_right _ he)
  unspawned e he c hc := by
    rcases List.mem_append.mp hc with hold | hnew
    · exact h.unspawned e (List.mem_append_right _ he) c hold
    · obtain ⟨entry, hentry, rfl⟩ := List.mem_map.mp hnew
      have hdistinct := h.distinct
      rw [List.map_append, List.nodup_append] at hdistinct
      exact hdistinct.2.2 _ (List.mem_map_of_mem hentry) _ (List.mem_map_of_mem he)
  distinct := by
    have := h.distinct
    rw [List.map_append] at this
    exact this.of_append_right
  ready e he := h.ready e (List.mem_append_right _ he)

theorem Pending.perm {rest' : List Entry} (h : Pending plan gen rest w) (hperm : rest.Perm rest') :
    Pending plan gen rest' w where
  assigned e he := h.assigned e (hperm.mem_iff.mpr he)
  unspawned e he := h.unspawned e (hperm.mem_iff.mpr he)
  distinct := (hperm.map fun e => e.1.id).nodup_iff.mp h.distinct
  ready e he := h.ready e (hperm.mem_iff.mpr he)

/-- The contract of `execute`. -/
abbrev driver (g : GoalRunner) (plan : Plan) (gen : Generated) : Contract Op Ret World :=
  stepContract (exec g) (Moves g plan gen) .execute

theorem wp_gatherBatch (h : Between g plan gen outs w) (hp : Pending plan gen (batch ++ rest) w)
    (hbatch : batch ∈ GoalRunner.parallelBatches g.maxParallelTasks ready) :
    wp (driver g plan gen) (GoalRunner.gatherBatch (g.running plan gen) batch)
      (fun results w => Between g plan gen (outs ++ results) w ∧ Pending plan gen rest w)
      (fun _ => Failed g plan gen) w := by
  unfold GoalRunner.gatherBatch
  simp only [Prog.bind_eq, Prog.op_bind]
  apply wp_call_step (fun w => Between g plan gen outs w ∧ Pending plan gen (batch ++ rest) w) ⟨h, hp⟩
  · intro j w w' hj hstep hw
    refine ⟨?_, hw.2.moves hj hstep⟩
    rcases hw.1.others hj hstep with rfl | hask
    · exact hw.1
    · exact hw.1.ask hask
  intro w first w' hw hexec
  simp only [exec] at hexec
  split at hexec
  · next hfirst =>
      cases hexec
      obtain ⟨hdrive, hjoining⟩ := hw.1.gather hw.2.left hbatch
      refine ⟨.inr hdrive, ?_⟩
      apply wp_call_step (fun w => Joining g plan gen outs batch w ∧ Pending plan gen rest w)
        ⟨hjoining, hw.2.gather⟩
      · intro j w w' hj hstep hw
        exact ⟨hw.1.moves hj hstep, hw.2.moves hj hstep⟩
      intro w' r w'' hw' hexec
      have hlength : first = outs.length := by
        rw [hfirst]
        simpa using congrArg List.length hw.1.results
      simp only [exec, hlength] at hexec
      split at hexec
      · next hjoined =>
          cases hexec
          refine ⟨Moves.refl w', ?_⟩
          have hend := hw'.1.join hjoined
          cases r with
          | ok outcomes => exact ⟨hend, hw'.2⟩
          | error e => exact hend
      · cases hexec
  · cases hexec

/-- **The batches of a pass**, one after the other. -/
theorem wp_gatherBatches {batches : List (List Entry)} (h : Between g plan gen outs w)
    (hp : Pending plan gen batches.flatten w)
    (hbatches : ∀ batch ∈ batches, batch ∈ GoalRunner.parallelBatches g.maxParallelTasks ready) :
    wp (driver g plan gen) (GoalRunner.gatherBatches (g.running plan gen) batches outs)
      (fun outs' => Between g plan gen outs') (fun _ => Failed g plan gen) w := by
  induction batches generalizing outs w with
  | nil => exact h
  | cons batch rest ih =>
      unfold GoalRunner.gatherBatches
      rw [Prog.bind_eq]
      rw [List.flatten_cons] at hp
      apply wp_seq (wp_gatherBatch h hp (hbatches batch List.mem_cons_self))
      intro results w' hw'
      exact ih hw'.1 hw'.2 fun b hb => hbatches b (List.mem_cons_of_mem batch hb)

end Batch

/-! ## One pass -/

section Pass

variable {g : GoalRunner} {plan : Plan} {gen : Generated} {w w' : World} {c : Coroutine} {n : Nat}
  {outs : List TaskOutcome} {nodes : Dict TaskId TaskNode}

/-- What `by_id` says of the rows of a run. -/
theorem stateById_eq_some {db : Database} (hkeyed : Table.Keyed Task.id db.tasks) {runId : RunId}
    {rows : List Task} (hrows : rows.Perm (db.tasksOf runId)) {id : TaskId} {state : TaskState} :
    Scheduler.stateById rows id = some state ↔
      ∃ row, db.findTask id = some row ∧ row.runId = runId ∧ row.state = state := by
  unfold Scheduler.stateById
  rw [Option.map_eq_some_iff]
  constructor
  · intro ⟨row, hread, hstate⟩
    obtain ⟨row', hrow', heq⟩ := List.mem_map.mp (Dict.mem_of_get?_ofItems hread)
    cases heq
    obtain ⟨hmem, hrun⟩ := List.mem_filter.mp (hrows.mem_iff.mp hrow')
    exact ⟨row, Table.lookup_of_mem hkeyed hmem, of_decide_eq_true hrun, hstate⟩
  · intro ⟨row, hread, hrun, hstate⟩
    obtain ⟨hmem, hid⟩ := Table.mem_of_lookup hread
    refine ⟨row, Dict.get?_ofItems ?_ ?_, hstate⟩
    · rw [List.map_map]
      refine (hrows.map Task.id).nodup_iff.mpr ?_
      exact List.Nodup.sublist (List.filter_sublist.map Task.id) hkeyed
    · have hstored : row ∈ db.tasksOf runId := List.mem_filter.mpr ⟨hmem, decide_eq_true hrun⟩
      exact List.mem_map.mpr ⟨row, hrows.mem_iff.mpr hstored, by rw [hid]⟩

/-- The way back from a task to its node. -/
def Nodes (plan : Plan) (gen : Generated) (nodes : Dict TaskId TaskNode) : Prop :=
  ∀ id node, plan.byId.get? id = some node → nodes.get? (gen.taskId id) = some node

theorem Assigned.planned {entry : Entry} (h : Assigned plan gen entry) : entry.1.state = .planned := by
  obtain ⟨id, _, htask⟩ := h
  rw [htask]
  rfl

theorem Assigned.runId {entry : Entry} (h : Assigned plan gen entry) : entry.1.runId = gen.runId := by
  obtain ⟨id, _, htask⟩ := h
  rw [htask]
  rfl

theorem Assigned.entryOf {entry : Entry} (h : Assigned plan gen entry) (hnodes : Nodes plan gen nodes) :
    GoalRunner.entryOf nodes entry.1 = .ok entry := by
  obtain ⟨task, node⟩ := entry
  obtain ⟨id, hnode, htask⟩ := h
  dsimp only at hnode htask
  subst htask
  have hid : (gen.task node).id = gen.taskId id := by
    rw [← (Plan.of_byId hnode).2]
    rfl
  unfold GoalRunner.entryOf
  rw [hid, hnodes id node hnode]

theorem Assigned.id_eq {entry : Entry} (h : Assigned plan gen entry) :
    ∃ id, plan.byId.get? id = some entry.2 ∧ entry.1 = gen.task entry.2 ∧ entry.2.id = id ∧
      entry.1.id = gen.taskId id := by
  obtain ⟨id, hnode, htask⟩ := h
  have hid := (Plan.of_byId hnode).2
  refine ⟨id, hnode, htask, hid, ?_⟩
  rw [htask, ← hid]
  rfl

/-- A task of the run is known by its id. -/
theorem Assigned.eq_of_id (hinj : gen.Injective plan) {entry entry' : Entry}
    (h : Assigned plan gen entry) (h' : Assigned plan gen entry') (heq : entry.1.id = entry'.1.id) :
    entry = entry' := by
  obtain ⟨id, hnode, htask, _, hid⟩ := h.id_eq
  obtain ⟨id', hnode', htask', _, hid'⟩ := h'.id_eq
  have hkey : ∀ {id : String} {node : TaskNode}, plan.byId.get? id = some node → id ∈ plan.byId.keys :=
    fun hget => Dict.mem_keys.mpr ⟨_, Dict.mem_of_get? hget⟩
  have hids : id = id' := hinj id (hkey hnode) id' (hkey hnode') (by rw [← hid, ← hid', heq])
  subst hids
  have hnodes : entry.2 = entry'.2 := Option.some.inj (hnode.symm.trans hnode')
  exact Prod.ext (by rw [htask, htask', hnodes]) hnodes

/-- A dependency of a task of the run is a task of the run. -/
theorem Assigned.dependency (hvalid : plan.Valid) {entry : Entry} (h : Assigned plan gen entry)
    {dep : TaskId} (hdep : dep ∈ entry.1.dependencies) :
    ∃ entry', Assigned plan gen entry' ∧ entry'.1.id = dep ∧ entry'.2.id ∈ plan.adj entry.2.id := by
  obtain ⟨id, hnode, htask, hid, _⟩ := h.id_eq
  rw [htask] at hdep
  obtain ⟨name, hname, rfl⟩ := List.mem_map.mp hdep
  obtain ⟨node', hnode'⟩ := Plan.exists_byId (hvalid.known (Plan.of_byId hnode).1 hname)
  refine ⟨(gen.task node', node'), ⟨name, hnode', rfl⟩, ?_, ?_⟩
  · show gen.taskId node'.id = _
    rw [(Plan.of_byId hnode').2]
  · rw [hid, Plan.adj_of_byId hnode, (Plan.of_byId hnode').2]
    exact hname

/-- What a coroutine has left when all of them have returned. -/
theorem Standing.outcome (h : Standing g plan gen w)
    (hresults : w.coroutines.map Coroutine.result = outs.map fun o => some (.ok o))
    (hc : w.coroutines[n]? = some c) :
    ∃ o ∈ outs, c.result = some (.ok o) ∧ ∃ s, View c.task s w ∧ Concluded g c.entry.2 o s := by
  have hmem : c.result ∈ w.coroutines.map Coroutine.result :=
    List.mem_map_of_mem (List.mem_of_getElem? hc)
  rw [hresults] at hmem
  obtain ⟨o, ho, hresult⟩ := List.mem_map.mp hmem
  obtain ⟨s, hview, hleft⟩ := h.rested n c _ hc hresult.symm
  exact ⟨o, ho, hresult.symm, s, hview, hleft⟩

/-- When all coroutines have returned, every task of the run is concluded or untouched. -/
theorem Standing.seen (h : Standing g plan gen w) (hinv : Inv g plan gen w)
    (hresults : w.coroutines.map Coroutine.result = outs.map fun o => some (.ok o))
    (hinj : gen.Injective plan) {entry : Entry} (hentry : Assigned plan gen entry) :
    (∃ (n : Nat) (c : Coroutine) (o : TaskOutcome) (s : Share), w.coroutines[n]? = some c ∧
      c.entry = entry ∧ o ∈ outs ∧ View entry.1 s w ∧ Concluded g entry.2 o s) ∨
      (∀ c ∈ w.coroutines, c.task.id ≠ entry.1.id) ∧ View entry.1 {} w := by
  by_cases hfree : ∀ c ∈ w.coroutines, c.task.id ≠ entry.1.id
  · exact .inr ⟨hfree, h.untouched entry hentry hfree⟩
  · left
    simp only [not_forall, not_not] at hfree
    obtain ⟨c, hc, heq⟩ := hfree
    obtain ⟨n, hn⟩ := List.mem_iff_getElem?.mp hc
    have hsame := (hinv.spawned n c hn).2.eq_of_id hinj hentry heq
    obtain ⟨o, ho, _, s, hview, hconcluded⟩ := h.outcome hresults hn
    rw [Coroutine.task, hsame] at hview
    rw [hsame] at hconcluded
    exact ⟨n, c, o, s, hn, hsame, ho, hview, hconcluded⟩

theorem Between.outcome (h : Between g plan gen outs w) (hc : w.coroutines[n]? = some c) :
    ∃ o ∈ outs, c.result = some (.ok o) ∧ ∃ s, View c.task s w ∧ Concluded g c.entry.2 o s :=
  h.standing.outcome h.results hc

theorem Between.seen (h : Between g plan gen outs w) (hinj : gen.Injective plan) {entry : Entry}
    (hentry : Assigned plan gen entry) :
    (∃ (n : Nat) (c : Coroutine) (o : TaskOutcome) (s : Share), w.coroutines[n]? = some c ∧
      c.entry = entry ∧ o ∈ outs ∧ View entry.1 s w ∧ Concluded g entry.2 o s) ∨
      (∀ c ∈ w.coroutines, c.task.id ≠ entry.1.id) ∧ View entry.1 {} w :=
  h.standing.seen h.inv h.results hinj hentry

/-- A row of the run that is still planned is a task of the plan. -/
theorem Inv.planned_row (h : Inv g plan gen w) {row : Task} (hrow : row ∈ w.db.tasksOf gen.runId)
    (hplanned : row.state = .planned) : ∃ entry, Assigned plan gen entry ∧ entry.1 = row := by
  obtain ⟨hmem, hrun⟩ := List.mem_filter.mp hrow
  obtain ⟨entry, hentry, heq⟩ := h.rows row hmem (of_decide_eq_true hrun)
  refine ⟨entry, hentry, ?_⟩
  rw [heq, hplanned, ← hentry.planned]

theorem mapM_entryOf (hnodes : Nodes plan gen nodes) {ready : List Task}
    (hready : ∀ t ∈ ready, ∃ entry, Assigned plan gen entry ∧ entry.1 = t) :
    ∃ entries, ready.mapM (GoalRunner.entryOf nodes) = .ok entries ∧ entries.map Prod.fst = ready ∧
      ∀ e ∈ entries, Assigned plan gen e := by
  induction ready with
  | nil => exact ⟨[], rfl, rfl, nofun⟩
  | cons t ready ih =>
      obtain ⟨entry, hentry, rfl⟩ := hready t List.mem_cons_self
      obtain ⟨entries, hrun, hmap, hall⟩ := ih fun t ht => hready t (List.mem_cons_of_mem _ ht)
      refine ⟨entry :: entries, ?_, by rw [List.map_cons, hmap], ?_⟩
      · rw [List.mapM_cons, hentry.entryOf hnodes, hrun]
        rfl
      · intro e he
        rcases List.mem_cons.mp he with rfl | hmem
        · exact hentry
        · exact hall e hmem

/-- **The ready tasks of a pass** may be given to coroutines. -/
theorem Between.pending (h : Between g plan gen outs w) (hnodes : Nodes plan gen nodes)
    (hall : ∀ o ∈ outs, o.succeeded = true) {rows : List Task}
    (hrows : rows.Perm (w.db.tasksOf gen.runId)) :
    ∃ entries, (Scheduler.readyAmong rows).mapM (GoalRunner.entryOf nodes) = .ok entries ∧
      Pending plan gen entries w := by
  have hready : ∀ t ∈ Scheduler.readyAmong rows, t ∈ w.db.tasksOf gen.runId ∧ t.state = .planned ∧
      ∀ dep ∈ t.dependencies, Done w dep := by
    intro t ht
    obtain ⟨hmem, hcond⟩ := List.mem_filter.mp ht
    simp only [Bool.and_eq_true, decide_eq_true_eq, List.all_eq_true] at hcond
    refine ⟨hrows.mem_iff.mp hmem, hcond.1, fun dep hdep => ?_⟩
    obtain ⟨row, hread, _, hstate⟩ := (stateById_eq_some h.inv.keyed hrows).mp (hcond.2 dep hdep)
    exact ⟨row, hread, hstate⟩
  obtain ⟨entries, hrun, hmap, hassigned⟩ := mapM_entryOf hnodes fun t ht =>
    h.inv.planned_row (hready t ht).1 (hready t ht).2.1
  have hentry : ∀ e ∈ entries, e.1 ∈ Scheduler.readyAmong rows := by
    intro e he
    rw [← hmap]
    exact List.mem_map_of_mem he
  refine ⟨entries, hrun, hassigned, ?_, ?_, ?_⟩
  · -- a task that has a coroutine has succeeded, so it is not planned any more
    intro e he c hc heq
    obtain ⟨n, hn⟩ := List.mem_iff_getElem?.mp hc
    obtain ⟨o, ho, _, s, hview, hconcluded⟩ := h.outcome hn
    obtain ⟨hmem, hplanned, _⟩ := hready _ (hentry e he)
    have hread := Table.lookup_of_mem h.inv.keyed (List.mem_of_mem_filter hmem)
    have hrow := hview.row
    rw [heq] at hrow
    have hsame := Option.some.inj (hread.symm.trans hrow)
    rw [hsame] at hplanned
    have hstate : s.state = .planned := hplanned
    rcases hconcluded.ended with ⟨_, hs⟩ | ⟨hfailed, _⟩ | ⟨hfailed, _⟩ | ⟨hfailed, _⟩
    · rw [hstate] at hs
      cases hs
    all_goals
      rw [hall o ho] at hfailed
      cases hfailed
  · have hids : (entries.map fun e => e.1.id) = (Scheduler.readyAmong rows).map Task.id := by
      rw [← hmap, List.map_map]
      rfl
    rw [hids]
    refine List.Nodup.sublist (List.filter_sublist.map Task.id) ?_
    refine (hrows.map Task.id).nodup_iff.mpr ?_
    exact List.Nodup.sublist (List.filter_sublist.map Task.id) h.inv.keyed
  · intro e he dep hdep
    exact (hready _ (hentry e he)).2.2 dep hdep

/-- Why the loop was left: a task did not succeed, a request was seen, or every task that is untouched
waits for one that has not succeeded. -/
inductive Exit (plan : Plan) (gen : Generated) (outs : List TaskOutcome) (w : World) : Prop
  | unsuccessful {o : TaskOutcome} (ho : o ∈ outs) (hfailed : o.succeeded = false)
  | asked (haccepted : w.ledger.accepted = true)
  | blocked (hblocked : ∀ entry, Assigned plan gen entry →
      (∀ c ∈ w.coroutines, c.task.id ≠ entry.1.id) → ∃ dep ∈ entry.1.dependencies, ¬Done w dep)

theorem Exit.ask (h : Exit plan gen outs w) (hask : Ask g plan gen w w') : Exit plan gen outs w' := by
  cases h with
  | unsuccessful ho hfailed => exact .unsuccessful ho hfailed
  | asked haccepted => exact .asked (hask.accepted haccepted)
  | blocked hblocked =>
      apply Exit.blocked
      unfold Done
      rw [hask.coroutines, hask.db]
      exact hblocked

/-- No task is ready: the loop is left. -/
theorem Between.blocked (h : Between g plan gen outs w) (hvalid : plan.Valid)
    (hinj : gen.Injective plan) {rows : List Task}
    (hrows : rows.Perm (w.db.tasksOf gen.runId)) (hnone : Scheduler.readyAmong rows = []) :
    Exit plan gen outs w := by
  refine .blocked fun entry hentry hfree => ?_
  have hview := h.standing.untouched entry hentry hfree
  have hrow : w.db.findTask entry.1.id = some entry.1 := by
    rw [hview.row, Share.row, ← hentry.planned]
  have hmem : entry.1 ∈ rows := by
    refine hrows.mem_iff.mpr (List.mem_filter.mpr ⟨(Table.mem_of_lookup hrow).1, ?_⟩)
    exact decide_eq_true hentry.runId
  by_contra hall
  have hready : entry.1 ∈ Scheduler.readyAmong rows := by
    refine List.mem_filter.mpr ⟨hmem, ?_⟩
    simp only [Bool.and_eq_true, decide_eq_true_eq, List.all_eq_true]
    refine ⟨hentry.planned, fun dep hdep => ?_⟩
    have hdone : Done w dep := by
      by_contra hnot
      exact hall ⟨dep, hdep, hnot⟩
    obtain ⟨row, hread, hstate⟩ := hdone
    -- a dependency is a task of the run
    obtain ⟨entry', hentry', hid, _⟩ := hentry.dependency hvalid hdep
    have hview' : ∃ s, View entry'.1 s w := by
      rcases h.seen hinj hentry' with ⟨_, _, _, s, _, _, _, hview, _⟩ | ⟨_, hview⟩
      · exact ⟨s, hview⟩
      · exact ⟨_, hview⟩
    obtain ⟨s, hview'⟩ := hview'
    have hsame := hview'.row
    rw [hid, hread] at hsame
    cases hsame
    exact (stateById_eq_some h.inv.keyed hrows).mpr ⟨_, hread, hentry'.runId, hstate⟩
  rw [hnone] at hready
  exact List.not_mem_nil hready

end Pass

/-! ## When the loop has been left -/

section Settling

variable {g : GoalRunner} {plan : Plan} {gen : Generated} {w w' : World} {c : Coroutine} {n : Nat}
  {outs : List TaskOutcome}

/-- What a task has become when the loop has been left without a request. -/
inductive Fate (s : Share) : Prop
  | succeeded (hstate : s.state = .succeeded)
  | failed (hstate : s.state = .failed) (htroubled : s.marks.troubled = true)
  | refused (hstate : s.state = .ready) (hrefused : s.marks.refused = true)
  | untouched (hs : s = {})

/-- A task of the run has become so. -/
def Became (plan : Plan) (gen : Generated) (w : World) (P : Share → Prop) : Prop :=
  ∃ entry s, Assigned plan gen entry ∧ View entry.1 s w ∧ P s

/-- All tasks of the run have succeeded. -/
def AllDone (plan : Plan) (gen : Generated) (w : World) : Prop :=
  ∀ entry, Assigned plan gen entry → Done w entry.1.id

theorem Concluded.fate {node : TaskNode} {o : TaskOutcome} {s : Share} (h : Concluded g node o s)
    (hasked : s.asked = false) : Fate s := by
  rcases h.ended with ⟨_, hstate⟩ | ⟨_, hstate, htroubled⟩ | ⟨_, hstate, hrefused⟩ | ⟨_, _, hyes⟩
  · exact .succeeded hstate
  · exact .failed hstate htroubled
  · exact .refused hstate hrefused
  · rw [hasked] at hyes
    cases hyes

theorem View.asked_eq_false {t : Task} {s : Share} (h : View t s w) (hnone : w.ledger.accepted = false) :
    s.asked = false := by
  cases hasked : s.asked with
  | false => rfl
  | true =>
      have := h.asked hasked
      rw [hnone] at this
      cases this

theorem Between.fate (h : Between g plan gen outs w) (hinj : gen.Injective plan)
    (hnone : w.ledger.accepted = false) {entry : Entry} (hentry : Assigned plan gen entry) :
    ∃ s, View entry.1 s w ∧ Fate s := by
  rcases h.seen hinj hentry with ⟨_, _, _, s, _, _, _, hview, hconcluded⟩ | ⟨_, hview⟩
  · exact ⟨s, hview, hconcluded.fate (hview.asked_eq_false hnone)⟩
  · exact ⟨{}, hview, .untouched rfl⟩

/-- **The loop is left for a reason**: a task failed, or was refused a reservation, or all tasks have
succeeded. -/
theorem Between.exhausted (h : Between g plan gen outs w) (hexit : Exit plan gen outs w)
    (hvalid : plan.Valid) (hinj : gen.Injective plan) (hnone : w.ledger.accepted = false) :
    Became plan gen w (fun s => s.state = .failed) ∨ Became plan gen w (fun s => s.state = .ready) ∨
      AllDone plan gen w := by
  cases hexit with
  | asked haccepted =>
      rw [hnone] at haccepted
      cases haccepted
  | @unsuccessful o ho hfailed =>
      have hmem : some (.ok o) ∈ w.coroutines.map Coroutine.result := by
        rw [h.results]
        exact List.mem_map_of_mem ho
      obtain ⟨c, hc, hresult⟩ := List.mem_map.mp hmem
      obtain ⟨n, hn⟩ := List.mem_iff_getElem?.mp hc
      obtain ⟨s, hview, hleft⟩ := h.standing.rested n c _ hn hresult
      have hconcluded : Concluded g c.entry.2 o s := hleft
      have hassigned := (h.inv.spawned n c hn).2
      rcases hconcluded.ended with ⟨hyes, _⟩ | ⟨_, hstate, _⟩ | ⟨_, hstate, _⟩ | ⟨_, _, hasked⟩
      · rw [hfailed] at hyes
        cases hyes
      · exact .inl ⟨c.entry, s, hassigned, hview, hstate⟩
      · exact .inr (.inl ⟨c.entry, s, hassigned, hview, hstate⟩)
      · rw [hview.asked_eq_false hnone] at hasked
        cases hasked
  | blocked hblocked =>
      by_cases hfailed : Became plan gen w fun s => s.state = .failed
      · exact .inl hfailed
      by_cases hready : Became plan gen w fun s => s.state = .ready
      · exact .inr (.inl hready)
      -- by induction along the dependencies, which are well founded
      have hall : ∀ name, Acc (fun a b => a ∈ plan.adj b) name → ∀ entry, Assigned plan gen entry →
          entry.2.id = name → Done w entry.1.id := by
        intro name hacc
        induction hacc with
        | intro name _ ih =>
            intro entry hentry hname
            rcases h.seen hinj hentry with ⟨_, _, _, s, _, _, _, hview, hconcluded⟩ | ⟨hfree, hview⟩
            · rcases hconcluded.ended with ⟨_, hs⟩ | ⟨_, hs, _⟩ | ⟨_, hs, _⟩ | ⟨_, _, hasked⟩
              · exact ⟨s.row entry.1, hview.row, hs⟩
              · exact absurd ⟨entry, s, hentry, hview, hs⟩ hfailed
              · exact absurd ⟨entry, s, hentry, hview, hs⟩ hready
              · rw [hview.asked_eq_false hnone] at hasked
                cases hasked
            · obtain ⟨dep, hdep, hnot⟩ := hblocked entry hentry hfree
              obtain ⟨entry', hentry', hid', hname'⟩ := hentry.dependency hvalid hdep
              rw [hname] at hname'
              rw [← hid'] at hnot
              exact absurd (ih _ hname' entry' hentry' rfl) hnot
      refine .inr (.inr fun entry hentry => ?_)
      obtain ⟨id, hnode, _, hid, _⟩ := hentry.id_eq
      exact hall id (hvalid.acc (Dict.mem_keys.mpr ⟨_, Dict.mem_of_get? hnode⟩)) entry hentry hid

end Settling

end AtlasFlow.Reference
