import AtlasFlow.Reference.RunTask

/-!
# What every step of a run keeps

`Inv` holds in every state of the run. `Touch n` is what a call of a coroutine may do to the world: it
changes its own task and nothing else. `Ask` is what a request to stop the run may do, and `Drive` what
`execute` may do, which moves only while no coroutine is live.
-/

namespace AtlasFlow.Reference

open Concurrency

/-! ## What is said of the world -/

/-- The run while its tasks are worked on. -/
def GoalRunner.running (g : GoalRunner) (plan : Plan) (gen : Generated) : Run :=
  { g.newRun plan gen with state := .running }

/-- A task of the run, with its node. -/
def Assigned (plan : Plan) (gen : Generated) (entry : Entry) : Prop :=
  ∃ id, plan.byId.get? id = some entry.2 ∧ entry.1 = gen.task entry.2

/-- A coroutine that has not ended. -/
def Live (w : World) (n : Nat) (c : Coroutine) : Prop := w.coroutines[n]? = some c ∧ c.result = none

/-- A coroutine has returned. -/
def Coroutine.Returned (c : Coroutine) : Prop := ∃ o, c.result = some (.ok o)

/-- Every coroutine has returned. -/
def Rested (w : World) : Prop := ∀ (n : Nat) (c : Coroutine), w.coroutines[n]? = some c → c.Returned

/-- A task is stored as succeeded. -/
def Done (w : World) (id : TaskId) : Prop := ∃ row, w.db.findTask id = some row ∧ row.state = .succeeded

/-- The evidence that names a task. -/
def World.evidenceOf (w : World) (id : TaskId) : List Evidence :=
  w.db.evidence.filter fun e => e.taskId = some id

/-- The share of `t` in the world. -/
structure View (t : Task) (s : Share) (w : World) : Prop where
  row : w.db.findTask t.id = some (s.row t)
  opened : ∀ a ∈ w.db.attempts, a.taskId = t.id → a.state.isTerminal = false → s.opened = some a.id
  model : (w.active.get? t.id).map Prod.fst = s.model
  marks : w.ledger.marks t.id = s.marks
  evidence : w.evidenceOf t.id = s.evidence
  asked : s.asked = true → w.ledger.accepted = true

/-- The requests in the registry are those that were accepted and not cleared; a run is exposed when an
attempt was started after a request, or still will be. -/
structure Books (gen : Generated) (w : World) : Prop where
  before : w.ledger.isOver = false → w.ledger.late = false ∧
    w.ledger.accepted = (w.requested.get? gen.runId).isSome
  after : w.ledger.isOver = true → w.ledger.late = (w.requested.get? gen.runId).isSome
  late : w.ledger.late = true → w.ledger.accepted = true
  exposed : w.ledger.exposed = true →
    w.ledger.accepted = true ∧ (w.ledger.startedAfter = true ∨ w.holding = true)
  holding : w.ledger.accepted = true → w.holding = true → w.ledger.exposed = true
  started : w.ledger.startedAfter = true → w.ledger.exposed = true
  cancelled : ∀ id model, w.active.get? id = some (model, true) → w.ledger.accepted = true

/-- The calls to the outside that `execute` makes itself. -/
def Outside.ofExecute : Outside → Bool
  | .split | .launch => true
  | _ => false

/-- What holds in every state of the run. -/
structure Inv (g : GoalRunner) (plan : Plan) (gen : Generated) (w : World) : Prop where
  keyed : Table.Keyed Task.id w.db.tasks
  rows : ∀ row ∈ w.db.tasks, row.runId = gen.runId →
    ∃ entry, Assigned plan gen entry ∧ row = { entry.1 with state := row.state }
  spawned : ∀ (n : Nat) (c : Coroutine), w.coroutines[n]? = some c →
    c.run = g.running plan gen ∧ Assigned plan gen c.entry
  distinct : (w.coroutines.map fun c => c.task.id).Nodup
  ready : ∀ (n : Nat) (c : Coroutine), w.coroutines[n]? = some c → ∀ dep ∈ c.task.dependencies, Done w dep
  batch : (∃ n c, Live w n c) → ∃ first ready,
    (w.coroutines.drop first).map Coroutine.entry ∈ GoalRunner.parallelBatches g.maxParallelTasks ready ∧
      ∀ n c, Live w n c → first ≤ n
  closed : ∀ a ∈ w.db.attempts, a.state.isTerminal = false → ∀ entry, Assigned plan gen entry →
    a.taskId = entry.1.id → ∃ n c, Live w n c ∧ c.task.id = a.taskId
  books : Books gen w
  proper : ∀ (n : Nat) (c : Coroutine), w.coroutines[n]? = some c →
    Proper c.entry.2 (w.ledger.marks c.task.id) (w.evidenceOf c.task.id)
  raised : ∀ x ∈ w.ledger.raised, x.party = .execute ∧ x.outside.ofExecute = true ∨
    ∃ n c, x.party = .coroutine n ∧ x.outside.ofExecute = false ∧ w.coroutines[n]? = some c ∧
      (w.ledger.marks c.task.id).raised = true
  noted : ∀ (n : Nat) (c : Coroutine), w.coroutines[n]? = some c → (w.ledger.marks c.task.id).raised = true →
    ∃ x ∈ w.ledger.raised, x.party = .coroutine n
  waiting : ∀ n c, Live w n c → w.ledger.isOver = false
  unmarked : ∀ entry, Assigned plan gen entry → (∀ c ∈ w.coroutines, c.task.id ≠ entry.1.id) →
    w.ledger.marks entry.1.id = {} ∧ w.evidenceOf entry.1.id = []
  driven : ¬Rested w → w.db.findRun gen.runId = some (g.running plan gen)
  working : ∀ row ∈ w.db.tasks, row.runId = gen.runId → row.state = .running →
    ∃ (n : Nat) (c : Coroutine), w.coroutines[n]? = some c ∧ ¬c.Returned ∧ c.task.id = row.id
  owned : ∀ a ∈ w.db.attempts, a.runId = gen.runId → ∃ entry, Assigned plan gen entry ∧ a.taskId = entry.1.id

/-- How a coroutine has left its task. -/
def Left (g : GoalRunner) (node : TaskNode) : Except PyExn TaskOutcome → Share → Prop
  | .ok outcome => Concluded g node outcome
  | .error _ => Broken

theorem Left.opened {g : GoalRunner} {node : TaskNode} {result : Except PyExn TaskOutcome} {s : Share}
    (h : Left g node result s) : s.opened = none := by
  cases result with
  | ok outcome => exact Concluded.opened h
  | error e => exact Broken.opened h

/-! ## The steps -/

/-- Everything but the task of one coroutine, and the budget, is as it was. -/
structure Touch (c : Coroutine) (n : Nat) (w w' : World) : Prop where
  runs : w'.db.runs = w.db.runs
  rows : ∀ id, id ≠ c.task.id → w'.db.findTask id = w.db.findTask id
  done : ∀ id, Done w id → w'.db.findTask id = w.db.findTask id
  attempts : ∀ a ∈ w'.db.attempts, a ∈ w.db.attempts ∨ a.taskId = c.task.id
  evidence : ∀ id, id ≠ c.task.id → w'.evidenceOf id = w.evidenceOf id
  active : ∀ id, id ≠ c.task.id → w'.active.get? id = w.active.get? id
  marks : ∀ id, id ≠ c.task.id → w'.ledger.marks id = w.ledger.marks id
  raised : ∃ new, w'.ledger.raised = w.ledger.raised ++ new ∧
    ∀ x ∈ new, x.party = .coroutine n ∧ x.outside.ofExecute = false
  requested : w'.requested = w.requested
  accepted : w'.ledger.accepted = w.ledger.accepted
  isOver : w'.ledger.isOver = w.ledger.isOver
  late : w'.ledger.late = w.ledger.late

/-- What a coroutine does: a call about its task, or its end. -/
structure Work (g : GoalRunner) (plan : Plan) (gen : Generated) (n : Nat) (c : Coroutine) (w w' : World) :
    Prop where
  live : Live w n c
  inv : Inv g plan gen w'
  touch : Touch c n w w'
  coroutines : w'.coroutines = w.coroutines ∨ ∃ result s,
    w'.coroutines = w.coroutines.modify n (fun c => { c with result := some result }) ∧
      View c.task s w' ∧ Left g c.entry.2 result s

/-- What a request to stop the run does. -/
structure Ask (g : GoalRunner) (plan : Plan) (gen : Generated) (w w' : World) : Prop where
  inv : Inv g plan gen w'
  db : w'.db = w.db
  coroutines : w'.coroutines = w.coroutines
  active : ∀ id, (w'.active.get? id).map Prod.fst = (w.active.get? id).map Prod.fst
  marks : w'.ledger.marks = w.ledger.marks
  raised : w'.ledger.raised = w.ledger.raised
  isOver : w'.ledger.isOver = w.ledger.isOver
  accepted : w.ledger.accepted = true → w'.ledger.accepted = true
  late : w.ledger.isOver = true → w'.ledger.late = true ∨
    w'.ledger.late = w.ledger.late ∧ w'.ledger.accepted = w.ledger.accepted

/-- What `execute` does. -/
structure Drive (g : GoalRunner) (plan : Plan) (gen : Generated) (w w' : World) : Prop where
  inv : Inv g plan gen w'
  idle : ∀ n c, ¬Live w n c
  accepted : w.ledger.accepted = true → w'.ledger.accepted = true
  waiting : ∀ n c, Live w' n c → View c.task {} w'

/-- The steps of a run. -/
def Moves (g : GoalRunner) (plan : Plan) (gen : Generated) : Party → World → World → Prop
  | .execute, w, w' => w' = w ∨ Drive g plan gen w w'
  | .coroutine n, w, w' => w' = w ∨ ∃ c, Work g plan gen n c w w'
  | .cancelRun _, w, w' => w' = w ∨ Ask g plan gen w w'

/-! ## Frames -/

section Frames

variable {g : GoalRunner} {plan : Plan} {gen : Generated} {w w' : World} {t : Task} {s : Share}
  {c c' : Coroutine} {n m : Nat}

/-- A coroutine that is live has not returned. -/
theorem Live.not_returned (h : Live w n c) : ¬c.Returned := by
  rintro ⟨o, ho⟩
  exact absurd (h.2.symm.trans ho) nofun

theorem Rested.idle (h : Rested w) (n : Nat) (c : Coroutine) : ¬Live w n c :=
  fun hlive => hlive.not_returned (h n c hlive.1)

theorem View.frame (h : View t s w) (hrow : w'.db.findTask t.id = w.db.findTask t.id)
    (hattempts : ∀ a ∈ w'.db.attempts, a.taskId = t.id → a ∈ w.db.attempts)
    (hactive : (w'.active.get? t.id).map Prod.fst = (w.active.get? t.id).map Prod.fst)
    (hmarks : w'.ledger.marks t.id = w.ledger.marks t.id)
    (hevidence : w'.evidenceOf t.id = w.evidenceOf t.id)
    (haccepted : w.ledger.accepted = true → w'.ledger.accepted = true) : View t s w' where
  row := hrow.trans h.row
  opened a ha htask := h.opened a (hattempts a ha htask) htask
  model := hactive.trans h.model
  marks := hmarks.trans h.marks
  evidence := hevidence.trans h.evidence
  asked hasked := haccepted (h.asked hasked)

/-- A coroutine leaves the shares of the other tasks alone. -/
theorem View.touch (h : View t s w) (ht : Touch c n w w') (hne : t.id ≠ c.task.id) : View t s w' := by
  refine h.frame (ht.rows _ hne) ?_ ?_ (ht.marks _ hne) (ht.evidence _ hne) ?_
  · intro a ha htask
    exact (ht.attempts a ha).resolve_right fun h => hne (htask.symm.trans h)
  · rw [ht.active _ hne]
  · rw [ht.accepted]
    exact id

/-- A request leaves the shares of all tasks alone. -/
theorem View.ask (h : View t s w) (ha : Ask g plan gen w w') : View t s w' := by
  apply h.frame
  · rw [ha.db]
  · rw [ha.db]
    exact fun a ha _ => ha
  · exact ha.active _
  · rw [ha.marks]
  · rw [World.evidenceOf, ha.db, World.evidenceOf]
  · exact ha.accepted

/-- Two coroutines do not share a task. -/
theorem Inv.eq_of_task (h : Inv g plan gen w) (hc : w.coroutines[n]? = some c)
    (hc' : w.coroutines[m]? = some c') (heq : c.task.id = c'.task.id) : n = m := by
  obtain ⟨hn, rfl⟩ := List.getElem?_eq_some_iff.mp hc
  obtain ⟨hm, rfl⟩ := List.getElem?_eq_some_iff.mp hc'
  have hids : (w.coroutines.map fun c => c.task.id).get ⟨n, by simpa using hn⟩ =
      (w.coroutines.map fun c => c.task.id).get ⟨m, by simpa using hm⟩ := by simpa using heq
  exact h.distinct.getElem_inj_iff.mp hids

/-- A task that is stored as succeeded stays so. -/
theorem Touch.done_mono (h : Touch c n w w') {id : TaskId} (hdone : Done w id) : Done w' id := by
  have heq := h.done id hdone
  obtain ⟨row, hrow, hstate⟩ := hdone
  exact ⟨row, heq.trans hrow, hstate⟩

/-- **A coroutine's call keeps the invariant**, if it respects what is promised of its own task. -/
theorem Inv.touch (h : Inv g plan gen w) (hlive : Live w n c) (ht : Touch c n w w')
    (hcoroutines : w'.coroutines = w.coroutines) (hkeyed : Table.Keyed Task.id w'.db.tasks)
    (hview : View c.task s w') (hproper : Proper c.entry.2 s.marks s.evidence) (hbooks : Books gen w')
    (hraised : s.marks.raised = true ↔ ∃ x ∈ w'.ledger.raised, x.party = .coroutine n) :
    Inv g plan gen w' := by
  have hlives : ∀ m c', Live w' m c' ↔ Live w m c' := by
    intro m c'
    rw [Live, Live, hcoroutines]
  have hassigned := (h.spawned n c hlive.1).2
  -- another coroutine's task is another task
  have hother : ∀ m c', w.coroutines[m]? = some c' → m ≠ n → c'.task.id ≠ c.task.id :=
    fun m c' hc' hne heq => hne (h.eq_of_task hc' hlive.1 heq)
  obtain ⟨new, hnew, hnewparty⟩ := ht.raised
  constructor
  case keyed => exact hkeyed
  case rows =>
    intro row hrow hrunId
    have hread : w'.db.findTask row.id = some row := Table.lookup_of_mem hkeyed hrow
    by_cases heq : row.id = c.task.id
    · rw [heq, hview.row] at hread
      cases hread
      exact ⟨c.entry, hassigned, rfl⟩
    · rw [ht.rows _ heq] at hread
      exact h.rows row (Table.mem_of_lookup hread).1 hrunId
  case spawned => rw [hcoroutines]; exact h.spawned
  case distinct => rw [hcoroutines]; exact h.distinct
  case ready =>
    rw [hcoroutines]
    exact fun m c' hc' dep hdep => ht.done_mono (h.ready m c' hc' dep hdep)
  case batch =>
    simp only [hlives, hcoroutines]
    exact h.batch
  case closed =>
    intro a ha hopen entry hentry htask
    simp only [hlives]
    rcases ht.attempts a ha with hold | hown
    · exact h.closed a hold hopen entry hentry htask
    · exact ⟨n, c, hlive, hown.symm⟩
  case books => exact hbooks
  case proper =>
    rw [hcoroutines]
    intro m c' hc'
    by_cases hm : m = n
    · subst hm
      cases hc'.symm.trans hlive.1
      rw [hview.marks, hview.evidence]
      exact hproper
    · rw [ht.marks _ (hother m c' hc' hm), ht.evidence _ (hother m c' hc' hm)]
      exact h.proper m c' hc'
  case raised =>
    rw [hcoroutines]
    intro x hx
    have hown : x.party = .coroutine n → x.outside.ofExecute = false → ∃ m c', x.party = .coroutine m ∧
        x.outside.ofExecute = false ∧ w.coroutines[m]? = some c' ∧
          (w'.ledger.marks c'.task.id).raised = true := by
      intro hparty hkind
      refine ⟨n, c, hparty, hkind, hlive.1, ?_⟩
      rw [hview.marks]
      exact hraised.mpr ⟨x, hx, hparty⟩
    rw [hnew] at hx
    rcases List.mem_append.mp hx with hold | hlast
    · rcases h.raised x hold with hexecute | ⟨m, c', hparty, hkind, hc', hmarked⟩
      · exact .inl hexecute
      · right
        by_cases hm : m = n
        · subst hm
          exact hown hparty hkind
        · exact ⟨m, c', hparty, hkind, hc', by rw [ht.marks _ (hother m c' hc' hm)]; exact hmarked⟩
    · exact .inr (hown (hnewparty x hlast).1 (hnewparty x hlast).2)
  case noted =>
    rw [hcoroutines]
    intro m c' hc' hmarked
    by_cases hm : m = n
    · subst hm
      cases hc'.symm.trans hlive.1
      rw [hview.marks] at hmarked
      exact hraised.mp hmarked
    · rw [ht.marks _ (hother m c' hc' hm)] at hmarked
      obtain ⟨x, hx, hparty⟩ := h.noted m c' hc' hmarked
      exact ⟨x, by rw [hnew]; exact List.mem_append_left _ hx, hparty⟩
  case waiting =>
    intro m c' hm
    rw [ht.isOver]
    exact h.waiting m c' ((hlives m c').mp hm)
  case unmarked =>
    rw [hcoroutines]
    intro entry hentry hfree
    have hne := Ne.symm (hfree c (List.mem_of_getElem? hlive.1))
    rw [ht.marks _ hne, ht.evidence _ hne]
    exact h.unmarked entry hentry hfree
  case driven =>
    rw [Rested, hcoroutines, Database.findRun, ht.runs]
    exact h.driven
  case working =>
    rw [hcoroutines]
    intro row hrow hrunId hrunning
    have hread : w'.db.findTask row.id = some row := Table.lookup_of_mem hkeyed hrow
    by_cases heq : row.id = c.task.id
    · exact ⟨n, c, hlive.1, hlive.not_returned, heq.symm⟩
    · rw [ht.rows _ heq] at hread
      exact h.working row (Table.mem_of_lookup hread).1 hrunId hrunning
  case owned =>
    intro a ha hrunId
    rcases ht.attempts a ha with hold | hown
    · exact h.owned a hold hrunId
    · exact ⟨c.entry, hassigned, hown⟩

/-- What a coroutine that works leaves of the coroutines. -/
theorem Work.coroutine (h : Work g plan gen n c w w') (hc' : w.coroutines[m]? = some c') (hne : m ≠ n) :
    w'.coroutines[m]? = some c' := by
  rcases h.coroutines with heq | ⟨result, s, heq, _⟩
  · rw [heq, hc']
  · rw [heq, List.getElem?_modify, hc']
    simp [Ne.symm hne]

/-- A coroutine's share is its own: nobody else's step changes it. -/
theorem View.moves {party : Party} (hinv : Inv g plan gen w) (hlive : Live w n c) (h : View c.task s w)
    (hparty : party ≠ .coroutine n) (hstep : Moves g plan gen party w w') :
    Live w' n c ∧ Inv g plan gen w' ∧ View c.task s w' := by
  cases party with
  | execute =>
      rcases hstep with rfl | hdrive
      · exact ⟨hlive, hinv, h⟩
      · exact absurd hlive (hdrive.idle n c)
  | coroutine m =>
      rcases hstep with rfl | ⟨c', hwork⟩
      · exact ⟨hlive, hinv, h⟩
      · have hne : n ≠ m := fun heq => hparty (congrArg _ heq.symm)
        refine ⟨⟨hwork.coroutine hlive.1 hne, hlive.2⟩, hwork.inv, h.touch hwork.touch ?_⟩
        exact fun heq => hne (hinv.eq_of_task hlive.1 hwork.live.1 heq)
  | cancelRun m =>
      rcases hstep with rfl | hask
      · exact ⟨hlive, hinv, h⟩
      · exact ⟨⟨by rw [hask.coroutines]; exact hlive.1, hlive.2⟩, hask.inv, h.ask hask⟩

end Frames

end AtlasFlow.Reference
