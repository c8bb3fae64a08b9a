import AtlasFlow.Reference.Drive

/-!
# What `execute` writes

Before its loop, after it, and in the declared gates `execute` makes its own calls while no coroutine
is live. `Quiet` is a call that leaves the tasks of the run alone; the others write one task's row, or
stop asking for a request.
-/

namespace AtlasFlow.Reference

open Concurrency

section Writes

variable {g : GoalRunner} {plan : Plan} {gen : Generated} {w w' : World} {t row : Task} {s : Share}
  {entry : Entry} {outs : List TaskOutcome}

theorem Database.findRun_commit (run : Run) (event : DomainEvent) (db : Database) :
    ((db.upsertRun run).insertEvent event).findRun run.id = some run := Table.lookup_upsert_self run db.runs

/-! ### Calls that leave the tasks alone -/

/-- The tasks of the run are left alone, and what is known of a request. A call to the outside that
raises is noted. -/
structure Quiet (w w' : World) : Prop where
  tasks : w'.db.tasks = w.db.tasks
  attempts : w'.db.attempts = w.db.attempts
  evidence : ∀ id, w'.evidenceOf id = w.evidenceOf id
  requested : w'.requested = w.requested
  active : w'.active = w.active
  coroutines : w'.coroutines = w.coroutines
  ledger : { w'.ledger with raised := [] } = { w.ledger with raised := [] }
  raised : ∃ new, w'.ledger.raised = w.ledger.raised ++ new ∧
    ∀ x ∈ new, x.party = .execute ∧ x.outside.ofExecute = true

namespace Quiet

theorem accepted (h : Quiet w w') : w'.ledger.accepted = w.ledger.accepted := congrArg (·.accepted) h.ledger

theorem isOver (h : Quiet w w') : w'.ledger.isOver = w.ledger.isOver := congrArg (·.isOver) h.ledger

theorem late (h : Quiet w w') : w'.ledger.late = w.ledger.late := congrArg (·.late) h.ledger

theorem exposed (h : Quiet w w') : w'.ledger.exposed = w.ledger.exposed := congrArg (·.exposed) h.ledger

theorem startedAfter (h : Quiet w w') : w'.ledger.startedAfter = w.ledger.startedAfter :=
  congrArg (·.startedAfter) h.ledger

theorem marks (h : Quiet w w') : w'.ledger.marks = w.ledger.marks := congrArg (·.marks) h.ledger

/-- A write of other tables. -/
theorem of_db {db : Database} (htasks : db.tasks = w.db.tasks) (hattempts : db.attempts = w.db.attempts)
    (hevidence : ∀ id, db.evidence.filter (fun e => e.taskId = some id) = w.evidenceOf id) :
    Quiet w { w with db := db } :=
  ⟨htasks, hattempts, hevidence, rfl, rfl, rfl, rfl, ⟨[], (List.append_nil _).symm, nofun⟩⟩

/-- A write of the run. -/
theorem commitRun (w : World) (run : Run) (event : DomainEvent) :
    Quiet w { w with db := (w.db.upsertRun run).insertEvent event } := of_db rfl rfl fun _ => rfl

theorem saveRun (w : World) (run : Run) : Quiet w { w with db := w.db.upsertRun run } :=
  of_db rfl rfl fun _ => rfl

theorem setBudget (w : World) (budget : BudgetLedger) : Quiet w { w with budget := budget } :=
  ⟨rfl, rfl, fun _ => rfl, rfl, rfl, rfl, rfl, ⟨[], (List.append_nil _).symm, nofun⟩⟩

/-- Evidence that names no task. -/
theorem saveEvidence (w : World) (evidence : Evidence) (h : evidence.taskId = none) :
    Quiet w { w with db := { w.db with evidence := w.db.evidence ++ [evidence] } } := by
  refine of_db rfl rfl fun id => ?_
  rw [List.filter_append, World.evidenceOf]
  simp [h]

/-- A call of `execute` to the outside. -/
theorem outside {α : Type} (call : Outside) (hcall : call.ofExecute = true) (r : Except PyExn α)
    (w : World) :
    Quiet w (w.outside .execute call r) := by
  cases r with
  | ok a => exact ⟨rfl, rfl, fun _ => rfl, rfl, rfl, rfl, rfl, ⟨[], (List.append_nil _).symm, nofun⟩⟩
  | error e =>
      refine ⟨rfl, rfl, fun _ => rfl, rfl, rfl, rfl, rfl, ⟨[⟨.execute, call, e⟩], rfl, fun x hx => ?_⟩⟩
      rw [List.mem_singleton.mp hx]
      exact ⟨rfl, hcall⟩

theorem done (h : Quiet w w') (id : TaskId) : Done w' id ↔ Done w id := by
  unfold Done Database.findTask
  rw [h.tasks]

theorem live (h : Quiet w w') (n : Nat) (c : Coroutine) : Live w' n c ↔ Live w n c := by
  unfold Live
  rw [h.coroutines]

theorem holding (h : Quiet w w') : w'.holding = w.holding := by
  unfold World.holding
  rw [h.coroutines, h.marks]

theorem view (h : Quiet w w') (hview : View t s w) : View t s w' := by
  apply hview.frame
  · rw [Database.findTask, h.tasks, Database.findTask]
  · rw [h.attempts]
    exact fun a ha _ => ha
  · rw [h.active]
  · rw [h.marks]
  · exact h.evidence _
  · rw [h.accepted]
    exact id

theorem standing (h : Quiet w w') (hs : Standing g plan gen w) : Standing g plan gen w' := by
  constructor
  · rw [h.coroutines]
    intro n c result hc hresult
    obtain ⟨s, hview, hleft⟩ := hs.rested n c result hc hresult
    exact ⟨s, h.view hview, hleft⟩
  · rw [h.coroutines]
    exact fun entry hentry hfree => h.view (hs.untouched entry hentry hfree)

theorem books (h : Quiet w w') (hb : Books gen w) : Books gen w' := by
  obtain ⟨h₁, h₂, h₃, h₄, h₅, h₆, h₇⟩ := hb
  constructor <;> simpa only [h.isOver, h.late, h.accepted, h.requested, h.exposed, h.startedAfter, h.holding,
    h.active]

theorem rested (h : Quiet w w') : Rested w' ↔ Rested w := by
  unfold Rested
  rw [h.coroutines]

theorem inv (h : Quiet w w') (hi : Inv g plan gen w) (hrested : Rested w) : Inv g plan gen w' := by
  obtain ⟨new, hnew, hexecute⟩ := h.raised
  constructor
  case keyed => rw [h.tasks]; exact hi.keyed
  case rows => rw [h.tasks]; exact hi.rows
  case spawned => rw [h.coroutines]; exact hi.spawned
  case distinct => rw [h.coroutines]; exact hi.distinct
  case ready =>
    rw [h.coroutines]
    exact fun n c hc dep hdep => (h.done dep).mpr (hi.ready n c hc dep hdep)
  case batch => simpa only [h.live, h.coroutines] using hi.batch
  case closed => simpa only [h.live, h.attempts] using hi.closed
  case books => exact h.books hi.books
  case proper => simpa only [h.coroutines, h.marks, h.evidence] using hi.proper
  case raised =>
    rw [hnew, h.coroutines, h.marks]
    intro x hx
    rcases List.mem_append.mp hx with hold | hlast
    · exact hi.raised x hold
    · exact .inl (hexecute x hlast)
  case noted =>
    rw [h.coroutines, h.marks, hnew]
    intro n c hc hmarked
    obtain ⟨x, hx, hparty⟩ := hi.noted n c hc hmarked
    exact ⟨x, List.mem_append_left _ hx, hparty⟩
  case waiting => simpa only [h.live, h.isOver] using hi.waiting
  case unmarked => simpa only [h.coroutines, h.marks, h.evidence] using hi.unmarked
  case driven => exact fun hnot => absurd (h.rested.mpr hrested) hnot
  case working => simpa only [h.tasks, h.coroutines] using hi.working
  case owned => simpa only [h.attempts] using hi.owned

/-- A step of `execute`. -/
theorem drive (h : Quiet w w') (hi : Inv g plan gen w) (hrested : Rested w) :
    Drive g plan gen w w' where
  inv := h.inv hi hrested
  idle := hrested.idle
  accepted := by rw [h.accepted]; exact id
  waiting n c hlive := absurd ((h.live n c).mp hlive) (hrested.idle n c)

end Quiet

/-! ### Writing a task's row -/

/-- The row of a task of the run is written. -/
structure Wrote (row : Task) (w w' : World) : Prop where
  tasks : w'.db.tasks = Table.upsert Task.id row w.db.tasks
  runs : w'.db.runs = w.db.runs
  attempts : w'.db.attempts = w.db.attempts
  evidence : w'.db.evidence = w.db.evidence
  requested : w'.requested = w.requested
  active : w'.active = w.active
  coroutines : w'.coroutines = w.coroutines
  ledger : w'.ledger = w.ledger

namespace Wrote

theorem saveTask (w : World) (row : Task) : Wrote row w { w with db := w.db.upsertTask row } :=
  ⟨rfl, rfl, rfl, rfl, rfl, rfl, rfl, rfl⟩

theorem commitTask (w : World) (row : Task) (event : DomainEvent) :
    Wrote row w { w with db := (w.db.upsertTask row).insertEvent event } := ⟨rfl, rfl, rfl, rfl, rfl, rfl, rfl, rfl⟩

theorem findTask (h : Wrote row w w') (id : TaskId) :
    w'.db.findTask id = if id = row.id then some row else w.db.findTask id := by
  rw [Database.findTask, h.tasks, Table.lookup_upsert]
  rfl

theorem evidenceOf (h : Wrote row w w') (id : TaskId) : w'.evidenceOf id = w.evidenceOf id := by
  rw [World.evidenceOf, h.evidence, World.evidenceOf]

theorem live (h : Wrote row w w') (n : Nat) (c : Coroutine) : Live w' n c ↔ Live w n c := by
  unfold Live
  rw [h.coroutines]

theorem rested (h : Wrote row w w') : Rested w' ↔ Rested w := by
  unfold Rested
  rw [h.coroutines]

/-- A write of a row that is not stored as succeeded keeps the invariant while no coroutine is live. -/
theorem inv (h : Wrote row w w') (hi : Inv g plan gen w) (hrested : Rested w)
    (hrow : ∃ entry, Assigned plan gen entry ∧ row = { entry.1 with state := row.state })
    (hopen : ¬Done w row.id) (hstill : row.state ≠ .running) : Inv g plan gen w' := by
  constructor
  case keyed => rw [h.tasks]; exact Table.keyed_upsert hi.keyed row
  case rows =>
    rw [h.tasks]
    intro r hr hrun
    rcases Table.mem_upsert.mp hr with ⟨hold, _⟩ | rfl
    · exact hi.rows r hold hrun
    · exact hrow
  case spawned => rw [h.coroutines]; exact hi.spawned
  case distinct => rw [h.coroutines]; exact hi.distinct
  case ready =>
    rw [h.coroutines]
    intro n c hc dep hdep
    have hdone := hi.ready n c hc dep hdep
    have hne : dep ≠ row.id := by
      rintro rfl
      exact hopen hdone
    unfold Done
    rw [h.findTask, if_neg hne]
    exact hdone
  case batch => simpa only [h.live, h.coroutines] using hi.batch
  case closed => simpa only [h.live, h.attempts] using hi.closed
  case books =>
    obtain ⟨h₁, h₂, h₃, h₄, h₅, h₆, h₇⟩ := hi.books
    have hholding : w'.holding = w.holding := by
      unfold World.holding
      rw [h.coroutines, h.ledger]
    constructor <;> simpa only [h.ledger, h.requested, h.active, hholding]
  case proper => simpa only [h.coroutines, h.ledger, h.evidenceOf] using hi.proper
  case raised => simpa only [h.coroutines, h.ledger] using hi.raised
  case noted => simpa only [h.coroutines, h.ledger] using hi.noted
  case waiting => exact fun n c hlive => absurd ((h.live n c).mp hlive) (hrested.idle n c)
  case unmarked => simpa only [h.coroutines, h.ledger, h.evidenceOf] using hi.unmarked
  case driven => exact fun hnot => absurd (h.rested.mpr hrested) hnot
  case working =>
    rw [h.tasks, h.coroutines]
    intro r hr hrun hrunning
    rcases Table.mem_upsert.mp hr with ⟨hold, _⟩ | rfl
    · exact hi.working r hold hrun hrunning
    · exact absurd hrunning hstill
  case owned => simpa only [h.attempts] using hi.owned

theorem drive (h : Wrote row w w') (hi : Inv g plan gen w) (hrested : Rested w)
    (hrow : ∃ entry, Assigned plan gen entry ∧ row = { entry.1 with state := row.state })
    (hopen : ¬Done w row.id) (hstill : row.state ≠ .running) : Drive g plan gen w w' where
  inv := h.inv hi hrested hrow hopen hstill
  idle := hrested.idle
  accepted := by rw [h.ledger]; exact id
  waiting n c hlive := absurd ((h.live n c).mp hlive) (hrested.idle n c)

end Wrote

/-! ### The last question -/

/-- The registry holds no request any more, and nobody asks it again. -/
structure Closed (gen : Generated) (w w' : World) : Prop where
  db : w'.db = w.db
  active : w'.active = w.active
  coroutines : w'.coroutines = w.coroutines
  ledger : w'.ledger = { w.ledger with isOver := true }
  requested : w'.requested.get? gen.runId = none

namespace Closed

theorem live (h : Closed gen w w') (n : Nat) (c : Coroutine) : Live w' n c ↔ Live w n c := by
  unfold Live
  rw [h.coroutines]

theorem evidenceOf (h : Closed gen w w') (id : TaskId) : w'.evidenceOf id = w.evidenceOf id := by
  rw [World.evidenceOf, h.db, World.evidenceOf]

theorem inv (h : Closed gen w w') (hi : Inv g plan gen w) (hrested : Rested w)
    (hover : w.ledger.isOver = false) : Inv g plan gen w' := by
  constructor
  case keyed => rw [h.db]; exact hi.keyed
  case rows => rw [h.db]; exact hi.rows
  case spawned => rw [h.coroutines]; exact hi.spawned
  case distinct => rw [h.coroutines]; exact hi.distinct
  case ready => simpa only [h.coroutines, Done, h.db] using hi.ready
  case batch => simpa only [h.live, h.coroutines] using hi.batch
  case closed => simpa only [h.live, h.db] using hi.closed
  case books =>
    obtain ⟨h₁, _, h₃, h₄, h₅, h₆, h₇⟩ := hi.books
    have hholding : w'.holding = w.holding := by
      unfold World.holding
      rw [h.coroutines, h.ledger]
    constructor
    case before => rw [h.ledger]; nofun
    case after => rw [h.ledger, h.requested]; exact fun _ => (h₁ hover).1
    all_goals simpa only [h.ledger, h.active, hholding]
  case proper => simpa only [h.coroutines, h.ledger, h.evidenceOf] using hi.proper
  case raised => simpa only [h.coroutines, h.ledger] using hi.raised
  case noted => simpa only [h.coroutines, h.ledger] using hi.noted
  case waiting => exact fun n c hlive => absurd ((h.live n c).mp hlive) (hrested.idle n c)
  case unmarked => simpa only [h.coroutines, h.ledger, h.evidenceOf] using hi.unmarked
  case driven => simpa only [Rested, h.coroutines, h.db] using hi.driven
  case working => simpa only [h.coroutines, h.db] using hi.working
  case owned => simpa only [h.db] using hi.owned

theorem view (h : Closed gen w w') (hview : View t s w) : View t s w' := by
  apply hview.frame
  · rw [h.db]
  · rw [h.db]
    exact fun a ha _ => ha
  · rw [h.active]
  · rw [h.ledger]
  · exact h.evidenceOf _
  · rw [h.ledger]
    exact id

theorem standing (h : Closed gen w w') (hs : Standing g plan gen w) : Standing g plan gen w' := by
  constructor
  · rw [h.coroutines]
    intro n c result hc hresult
    obtain ⟨s, hview, hleft⟩ := hs.rested n c result hc hresult
    exact ⟨s, h.view hview, hleft⟩
  · rw [h.coroutines]
    exact fun entry hentry hfree => h.view (hs.untouched entry hentry hfree)

theorem drive (h : Closed gen w w') (hi : Inv g plan gen w) (hrested : Rested w)
    (hover : w.ledger.isOver = false) : Drive g plan gen w w' where
  inv := h.inv hi hrested hover
  idle := hrested.idle
  accepted := by rw [h.ledger]; exact id
  waiting n c hlive := absurd ((h.live n c).mp hlive) (hrested.idle n c)

end Closed

end Writes

end AtlasFlow.Reference
