import AtlasFlow.Reference.Invariant

/-!
# The calls of a coroutine

A call of a coroutine does to the world what `act` does to its share, touches nothing else, and keeps
the invariant: `Mine.call`, from one lemma for each kind of call.
-/

namespace AtlasFlow.Reference

open Concurrency

section Calls

variable {g : GoalRunner} {plan : Plan} {gen : Generated} {w w' : World} {s : Share} {c : Coroutine}
  {n : Nat}

/-- The part of the world a coroutine is verified on: its task, in a state of the run. -/
structure Mine (g : GoalRunner) (plan : Plan) (gen : Generated) (n : Nat) (c : Coroutine) (s : Share)
    (w : World) : Prop where
  inv : Inv g plan gen w
  live : Live w n c
  view : View c.task s w

theorem Inv.raised_iff (h : Inv g plan gen w) (hc : w.coroutines[n]? = some c) :
    (w.ledger.marks c.task.id).raised = true ↔ ∃ x ∈ w.ledger.raised, x.party = .coroutine n := by
  constructor
  · exact h.noted n c hc
  · rintro ⟨x, hx, hparty⟩
    rcases h.raised x hx with ⟨hexecute, _⟩ | ⟨m, c', hm, _, hc', hmarked⟩
    · rw [hparty] at hexecute
      cases hexecute
    · rw [hparty] at hm
      cases hm
      cases hc.symm.trans hc'
      exact hmarked

theorem World.note_eq (hc : w.coroutines[n]? = some c) (f : TaskId → Ledger → Ledger) :
    w.note (.coroutine n) f = { w with ledger := f c.task.id w.ledger } := by
  simp [World.note, World.taskOf, hc]

theorem holding_congr (hcoroutines : w'.coroutines = w.coroutines)
    (hreserved : ∀ id, (w'.ledger.marks id).reserved = (w.ledger.marks id).reserved) :
    w'.holding = w.holding := by
  unfold World.holding
  rw [hcoroutines]
  simp only [hreserved]

theorem Books.frame (h : Books gen w) (hrequested : w'.requested = w.requested)
    (hcoroutines : w'.coroutines = w.coroutines)
    (haccepted : w'.ledger.accepted = w.ledger.accepted) (hover : w'.ledger.isOver = w.ledger.isOver)
    (hlate : w'.ledger.late = w.ledger.late) (hexposed : w'.ledger.exposed = w.ledger.exposed)
    (hstarted : w'.ledger.startedAfter = w.ledger.startedAfter)
    (hreserved : ∀ id, (w'.ledger.marks id).reserved = (w.ledger.marks id).reserved)
    (hcancelled : ∀ id model, w'.active.get? id = some (model, true) →
      ∃ id' model', w.active.get? id' = some (model', true)) : Books gen w' := by
  obtain ⟨h₁, h₂, h₃, h₄, h₅, h₆, h₇⟩ := h
  rw [← hover, ← hlate, ← haccepted, ← hrequested] at h₁
  rw [← hover, ← hlate, ← hrequested] at h₂
  rw [← hlate, ← haccepted] at h₃
  rw [← hexposed, ← haccepted, ← hstarted, ← holding_congr hcoroutines hreserved] at h₄
  rw [← haccepted, ← holding_congr hcoroutines hreserved, ← hexposed] at h₅
  rw [← hstarted, ← hexposed] at h₆
  refine ⟨h₁, h₂, h₃, h₄, h₅, h₆, fun id model hactive => ?_⟩
  obtain ⟨id', model', hold⟩ := hcancelled id model hactive
  rw [haccepted]
  exact h₇ id' model' hold

/-- What a call of a coroutine is shown to do. -/
def Sound (g : GoalRunner) (plan : Plan) (gen : Generated) (n : Nat) (c : Coroutine) (w : World)
    (s' : Share) (w' : World) : Prop :=
  Mine g plan gen n c s' w' ∧ Moves g plan gen (.coroutine n) w w'

theorem Mine.same (h : Mine g plan gen n c s w) : Sound g plan gen n c w s w := ⟨h, .inl rfl⟩

theorem Mine.work (h : Mine g plan gen n c s w) {s' : Share} (ht : Touch c n w w')
    (hcoroutines : w'.coroutines = w.coroutines) (hkeyed : Table.Keyed Task.id w'.db.tasks)
    (hview : View c.task s' w') (hproper : Proper c.entry.2 s'.marks s'.evidence)
    (hbooks : Books gen w')
    (hraised : s'.marks.raised = true ↔ ∃ x ∈ w'.ledger.raised, x.party = .coroutine n) :
    Sound g plan gen n c w s' w' := by
  have hinv := h.inv.touch h.live ht hcoroutines hkeyed hview hproper hbooks hraised
  refine ⟨⟨hinv, ?_, hview⟩, .inr ⟨c, h.live, hinv, ht, .inl hcoroutines⟩⟩
  rw [Live, hcoroutines]
  exact h.live

theorem Mine.proper (h : Mine g plan gen n c s w) : Proper c.entry.2 s.marks s.evidence := by
  rw [← h.view.marks, ← h.view.evidence]
  exact h.inv.proper n c h.live.1

theorem Mine.raised (h : Mine g plan gen n c s w) :
    s.marks.raised = true ↔ ∃ x ∈ w.ledger.raised, x.party = .coroutine n := by
  rw [← h.view.marks]
  exact h.inv.raised_iff h.live.1

/-- A write to the tables, about the coroutine's own task. -/
theorem Mine.write (h : Mine g plan gen n c s w) {db : Database} {s' : Share}
    (hruns : db.runs = w.db.runs) (hrows : ∀ id, id ≠ c.task.id → db.findTask id = w.db.findTask id)
    (hopen : s.state = .succeeded → db.findTask c.task.id = w.db.findTask c.task.id)
    (hattempts : ∀ a ∈ db.attempts, a ∈ w.db.attempts ∨ a.taskId = c.task.id)
    (hevidence : ∀ id, id ≠ c.task.id → (db.evidence.filter fun e => e.taskId = some id) =
      w.db.evidence.filter fun e => e.taskId = some id)
    (hkeyed : Table.Keyed Task.id db.tasks) (hview : View c.task s' { w with db })
    (hproper : Proper c.entry.2 s'.marks s'.evidence) (hmarks : s'.marks = s.marks) :
    Sound g plan gen n c w s' { w with db } := by
  refine h.work ?_ rfl hkeyed hview hproper ?_ ?_
  · exact {
      runs := hruns
      rows := hrows
      done := by
        intro id hdone
        by_cases heq : id = c.task.id
        · obtain ⟨row, hrow, hstate⟩ := hdone
          rw [heq, h.view.row] at hrow
          cases hrow
          rw [heq]
          exact hopen hstate
        · exact hrows id heq
      attempts := hattempts
      evidence := hevidence
      active := fun _ _ => rfl
      marks := fun _ _ => rfl
      raised := ⟨[], by simp, nofun⟩
      requested := rfl
      accepted := rfl
      isOver := rfl
      late := rfl }
  · exact h.inv.books.frame rfl rfl rfl rfl rfl rfl rfl (fun _ => rfl) fun id model h => ⟨id, model, h⟩
  · rw [hmarks]
    exact h.raised

/-- A change that is written down about the coroutine's own task. -/
theorem Mine.note (h : Mine g plan gen n c s w) {s' : Share} (hdb : w'.db = w.db)
    (hcoroutines : w'.coroutines = w.coroutines) (hrequested : w'.requested = w.requested)
    (haccepted : w'.ledger.accepted = w.ledger.accepted) (hover : w'.ledger.isOver = w.ledger.isOver)
    (hlate : w'.ledger.late = w.ledger.late) (hraises : w'.ledger.raised = w.ledger.raised)
    (hmarks : ∀ id, id ≠ c.task.id → w'.ledger.marks id = w.ledger.marks id)
    (hactive : ∀ id, id ≠ c.task.id → w'.active.get? id = w.active.get? id)
    (hbooks : Books gen w') (hview : View c.task s' w')
    (hproper : Proper c.entry.2 s'.marks s'.evidence) (hraised : s'.marks.raised = s.marks.raised) :
    Sound g plan gen n c w s' w' := by
  refine h.work ?_ hcoroutines ?_ hview hproper hbooks ?_
  · exact {
      runs := by rw [hdb]
      rows := fun _ _ => by rw [hdb]
      done := fun _ _ => by rw [hdb]
      attempts := fun a ha => .inl (by rwa [hdb] at ha)
      evidence := fun _ _ => by rw [World.evidenceOf, hdb, World.evidenceOf]
      active := hactive
      marks := hmarks
      raised := ⟨[], by simp [hraises], nofun⟩
      requested := hrequested
      accepted := haccepted
      isOver := hover
      late := hlate }
  · rw [hdb]
    exact h.inv.keyed
  · rw [hraised, hraises]
    exact h.raised

/-- The marks after something was written down about one task. -/
theorem marks_mark (L : Ledger) (id id' : TaskId) (f : Marks → Marks) :
    (L.mark id f).marks id' = if id' = id then f (L.marks id) else L.marks id' := by
  by_cases h : id' = id
  · subst h
    simp [Ledger.mark]
  · simp [Ledger.mark, h]

theorem marks_start (L : Ledger) (id id' : TaskId) : (Ledger.start id L).marks id' =
    if id' = id then { L.marks id with reserved := false } else L.marks id' :=
  marks_mark L id id' fun m => { m with reserved := false }

theorem marks_reserve (L : Ledger) (id id' : TaskId) : (Ledger.reserve id L).marks id' =
    if id' = id then { L.marks id with reserved := true } else L.marks id' :=
  marks_mark L id id' fun m => { m with reserved := true }

theorem marks_refuse (L : Ledger) (id id' : TaskId) : (Ledger.refuse id L).marks id' =
    if id' = id then { L.marks id with refused := (L.marks id).refused || (L.marks id).heard.isEmpty }
    else L.marks id' :=
  marks_mark L id id' fun m => { m with refused := m.refused || m.heard.isEmpty }

theorem marks_hear (L : Ledger) (id id' : TaskId) (h : Heard) : (Ledger.hear id h L).marks id' =
    if id' = id then { L.marks id with heard := (L.marks id).heard ++ [h] } else L.marks id' :=
  marks_mark L id id' fun m => { m with heard := m.heard ++ [h] }

theorem marks_integrate (L : Ledger) (id id' : TaskId) (merged : Bool) :
    (Ledger.integrate id merged L).marks id' =
      if id' = id then { L.marks id with integrations := (L.marks id).integrations ++ [merged] }
      else L.marks id' :=
  marks_mark L id id' fun m => { m with integrations := m.integrations ++ [merged] }

/-- A call to the outside that raises is written down, with what it means for the task. -/
theorem Mine.raise (h : Mine g plan gen n c s w) {call : Outside} {e : PyExn} {f : Marks → Marks}
    (hcall : call.ofExecute = false) (hraised : ∀ m, (f m).raised = true)
    (hreserved : ∀ m, (f m).reserved = m.reserved) (hproper : Proper c.entry.2 (f s.marks) s.evidence) :
    Sound g plan gen n c w { s with marks := f s.marks }
      { w with
        ledger := (Ledger.mark c.task.id f
          { w.ledger with raised := w.ledger.raised ++ [⟨.coroutine n, call, e⟩] }) } := by
  refine h.work ?_ rfl h.inv.keyed ?_ hproper ?_ ?_
  · exact {
      runs := rfl
      rows := fun _ _ => rfl
      done := fun _ _ => rfl
      attempts := fun a ha => .inl ha
      evidence := fun _ _ => rfl
      active := fun _ _ => rfl
      marks := fun id hne => by rw [marks_mark, if_neg hne]
      raised := ⟨[⟨.coroutine n, call, e⟩], rfl, by simpa using hcall⟩
      requested := rfl
      accepted := rfl
      isOver := rfl
      late := rfl }
  · exact {
      row := h.view.row
      opened := h.view.opened
      model := h.view.model
      marks := by rw [marks_mark, if_pos rfl, h.view.marks]
      evidence := h.view.evidence
      asked := h.view.asked }
  · refine h.inv.books.frame rfl rfl rfl rfl rfl rfl rfl ?_ fun id model h => ⟨id, model, h⟩
    intro id
    rw [marks_mark]
    split
    · next heq => rw [heq, hreserved]
    · rfl
  · exact iff_of_true (hraised _) ⟨_, List.mem_append_right _ List.mem_cons_self, rfl⟩

theorem World.outside_error (hc : w.coroutines[n]? = some c) {α : Type} (call : Outside) (e : PyExn) :
    w.outside (.coroutine n) call (.error e : Except PyExn α) =
      { w with
        ledger := (Ledger.mark c.task.id (fun m => { m with raised := true })
          { w.ledger with raised := w.ledger.raised ++ [⟨.coroutine n, call, e⟩] }) } := by
  simp [World.outside, World.note, World.taskOf, hc]

theorem Mine.outside (h : Mine g plan gen n c s w) {α : Type} {r : Except PyExn α} {call : Outside}
    (hcall : call.ofExecute = false) :
    Sound g plan gen n c w (s.outside r) (w.outside (.coroutine n) call r) := by
  cases r with
  | ok a => exact h.same
  | error e =>
      rw [World.outside_error h.live.1]
      exact h.raise (f := fun m => { m with raised := true }) hcall (fun _ => rfl) (fun _ => rfl)
        ⟨h.proper.merged, h.proper.reviewed⟩

/-- The open attempt of a task after a row of it was written. -/
theorem Mine.opened (h : Mine g plan gen n c s w) {a row : Attempt}
    (hopened : s.opened = none ∨ s.opened = some a.id)
    (hrow : row ∈ Table.upsert Attempt.id a w.db.attempts) (htask : row.taskId = c.task.id)
    (hopen : row.state.isTerminal = false) : row = a := by
  rcases Table.mem_upsert.mp hrow with ⟨hold, hne⟩ | rfl
  · have hopened' := h.view.opened row hold htask hopen
    rcases hopened with hnone | hsome
    · rw [hnone] at hopened'
      cases hopened'
    · rw [hsome] at hopened'
      exact absurd (Option.some.inj hopened').symm hne
  · rfl

theorem mem_attempts_upsert {a row : Attempt} {rows : List Attempt}
    (h : row ∈ Table.upsert Attempt.id a rows) : row ∈ rows ∨ row = a := by
  rcases Table.mem_upsert.mp h with ⟨hold, _⟩ | hnew
  · exact .inl hold
  · exact .inr hnew

theorem Mine.saveAttempt (h : Mine g plan gen n c s w) {a : Attempt} (hopened : s.opened = none)
    (htask : a.taskId = c.task.id) :
    Sound g plan gen n c w { s with opened := some a.id } { w with db := w.db.upsertAttempt a } := by
  refine h.write rfl (fun _ _ => rfl) (fun _ => rfl) ?_ (fun _ _ => rfl) h.inv.keyed ?_ h.proper rfl
  · intro row hrow
    rcases mem_attempts_upsert hrow with hold | rfl
    · exact .inl hold
    · exact .inr htask
  · exact {
      row := h.view.row
      opened := fun row hrow hrowTask hopen => by rw [h.opened (.inl hopened) hrow hrowTask hopen]
      model := h.view.model
      marks := h.view.marks
      evidence := h.view.evidence
      asked := h.view.asked }

/-- The row of an attempt that moves, without what is written down at its start. -/
theorem Mine.viewAttempt (h : Mine g plan gen n c s w) {a : Attempt} (event : DomainEvent)
    (hopened : s.opened = some a.id) :
    View c.task { s with opened := if a.state.isTerminal then none else some a.id }
      { w with db := (w.db.upsertAttempt a).insertEvent event } where
  row := h.view.row
  opened row hrow hrowTask hopen := by
    have heq := h.opened (.inr hopened) hrow hrowTask hopen
    subst heq
    rw [hopen]
    rfl
  model := h.view.model
  marks := h.view.marks
  evidence := h.view.evidence
  asked := h.view.asked

theorem holding_of_reserved (hc : w.coroutines[n]? = some c)
    (hreserved : (w.ledger.marks c.task.id).reserved = true) : w.holding = true :=
  List.any_eq_true.mpr ⟨c, List.mem_of_getElem? hc, hreserved⟩

/-- An attempt is started: the reservation it holds is used up. -/
theorem Books.start (h : Books gen w) (hc : w.coroutines[n]? = some c)
    (hreserved : (w.ledger.marks c.task.id).reserved = true) (db : Database) :
    Books gen { w with db, ledger := Ledger.start c.task.id w.ledger } where
  before := h.before
  after := h.after
  late := h.late
  exposed hexposed := ⟨(h.exposed hexposed).1, .inl (by simp [Ledger.start, (h.exposed hexposed).1])⟩
  holding haccepted hholding := by
    refine h.holding haccepted ?_
    obtain ⟨c', hc', hmarked⟩ := List.any_eq_true.mp hholding
    refine List.any_eq_true.mpr ⟨c', hc', ?_⟩
    rw [marks_start] at hmarked
    split at hmarked
    · cases hmarked
    · exact hmarked
  started hstarted := by
    have hcases : w.ledger.startedAfter = true ∨ w.ledger.accepted = true := by
      simpa [Ledger.start] using hstarted
    rcases hcases with hold | haccepted
    · exact h.started hold
    · exact h.holding haccepted (holding_of_reserved hc hreserved)
  cancelled := h.cancelled

theorem Mine.commitAttempt (h : Mine g plan gen n c s w) {a : Attempt} {event : DomainEvent}
    (hopened : s.opened = some a.id) (htask : a.taskId = c.task.id)
    (hreserved : a.state = .starting → s.marks.reserved = true) :
    Sound g plan gen n c w
      { s with
        opened := if a.state.isTerminal then none else some a.id
        marks := if a.state = .starting then { s.marks with reserved := false } else s.marks }
      (if a.state = .starting then
        World.note (.coroutine n) Ledger.start
          { w with db := (w.db.upsertAttempt a).insertEvent event }
      else { w with db := (w.db.upsertAttempt a).insertEvent event }) := by
  have hattempts : ∀ row ∈ Table.upsert Attempt.id a w.db.attempts,
      row ∈ w.db.attempts ∨ row.taskId = c.task.id := by
    intro row hrow
    rcases mem_attempts_upsert hrow with hold | rfl
    · exact .inl hold
    · exact .inr htask
  have hview := h.viewAttempt event hopened
  by_cases hstart : a.state = .starting
  · have hmarked : (w.ledger.marks c.task.id).reserved = true := by
      rw [h.view.marks]
      exact hreserved hstart
    have hworld : World.note (.coroutine n) Ledger.start
        { w with db := (w.db.upsertAttempt a).insertEvent event } =
          { w with
            db := (w.db.upsertAttempt a).insertEvent event
            ledger := Ledger.start c.task.id w.ledger } :=
      World.note_eq (w := { w with db := (w.db.upsertAttempt a).insertEvent event }) h.live.1 _
    rw [if_pos hstart, if_pos hstart, hworld]
    refine h.work ?_ rfl h.inv.keyed ?_ ⟨h.proper.merged, h.proper.reviewed⟩
      (h.inv.books.start h.live.1 hmarked _) h.raised
    · exact {
        runs := rfl
        rows := fun _ _ => rfl
        done := fun _ _ => rfl
        attempts := hattempts
        evidence := fun _ _ => rfl
        active := fun _ _ => rfl
        marks := fun id hne => by rw [marks_start, if_neg hne]
        raised := ⟨[], by simp [Ledger.start, Ledger.mark], nofun⟩
        requested := rfl
        accepted := rfl
        isOver := rfl
        late := rfl }
    · exact {
        row := h.view.row
        opened := hview.opened
        model := h.view.model
        marks := by rw [marks_start, if_pos rfl, h.view.marks]
        evidence := h.view.evidence
        asked := h.view.asked }
  · rw [if_neg hstart, if_neg hstart]
    exact h.write rfl (fun _ _ => rfl) (fun _ => rfl) hattempts (fun _ _ => rfl) h.inv.keyed hview
      h.proper rfl

theorem Mine.commitTask (h : Mine g plan gen n c s w) {task : Task} {event : DomainEvent} {s' : Share}
    (hs' : s' = { s with state := task.state }) (hopen : s.state ≠ .succeeded)
    (htask : task = s'.row c.task) :
    Sound g plan gen n c w s' { w with db := (w.db.upsertTask task).insertEvent event } := by
  have hid : task.id = c.task.id := by rw [htask]; rfl
  subst hs'
  refine h.write rfl ?_ (fun h => absurd h hopen) (fun a ha => .inl ha) (fun _ _ => rfl)
    (Table.keyed_upsert h.inv.keyed task) ?_ h.proper rfl
  · intro id hne
    exact Table.lookup_upsert_of_ne (by rw [hid]; exact hne) w.db.tasks
  · exact {
      row := by
        have hread : (w.db.upsertTask task).findTask task.id = some task :=
          Table.lookup_upsert_self task w.db.tasks
        rw [hid] at hread
        exact hread.trans (congrArg some htask)
      opened := h.view.opened
      model := h.view.model
      marks := h.view.marks
      evidence := h.view.evidence
      asked := h.view.asked }

theorem Mine.saveEvidence (h : Mine g plan gen n c s w) {e : Evidence}
    (htask : e.taskId = some c.task.id) (hproper : Proper c.entry.2 s.marks (s.evidence ++ [e])) :
    Sound g plan gen n c w { s with evidence := s.evidence ++ [e] }
      { w with db := { w.db with evidence := w.db.evidence ++ [e] } } := by
  refine h.write rfl (fun _ _ => rfl) (fun _ => rfl) (fun a ha => .inl ha) ?_ h.inv.keyed ?_ hproper rfl
  · intro id hne
    have hother : e.taskId ≠ some id := by
      rw [htask]
      exact fun heq => hne (Option.some.inj heq).symm
    simp [List.filter_append, hother]
  · exact {
      row := h.view.row
      opened := h.view.opened
      model := h.view.model
      marks := h.view.marks
      evidence := by
        rw [← h.view.evidence]
        simp [World.evidenceOf, List.filter_append, htask]
      asked := h.view.asked }

/-- A reservation is granted. -/
theorem Books.reserve (h : Books gen w) (hc : w.coroutines[n]? = some c) (budget : BudgetLedger) :
    Books gen { w with budget, ledger := Ledger.reserve c.task.id w.ledger } where
  before := h.before
  after := h.after
  late := h.late
  exposed hexposed := by
    have hcases : w.ledger.exposed = true ∨ w.ledger.accepted = true := by
      simpa [Ledger.reserve] using hexposed
    refine ⟨?_, .inr (holding_of_reserved hc ?_)⟩
    · rcases hcases with hold | haccepted
      · exact (h.exposed hold).1
      · exact haccepted
    · rw [marks_reserve, if_pos rfl]
  holding haccepted _ := by
    have : w.ledger.accepted = true := haccepted
    simp [Ledger.reserve, this]
  started hstarted := by
    simp [Ledger.reserve, h.started hstarted]
  cancelled := h.cancelled

theorem Mine.reserve (h : Mine g plan gen n c s w) (budget : BudgetLedger) :
    Sound g plan gen n c w { s with marks := { s.marks with reserved := true } }
      { w with budget, ledger := Ledger.reserve c.task.id w.ledger } := by
  refine h.note rfl rfl rfl rfl rfl rfl rfl ?_ (fun _ _ => rfl) (h.inv.books.reserve h.live.1 budget) ?_
    ⟨h.proper.merged, h.proper.reviewed⟩ rfl
  · intro id hne
    rw [marks_reserve, if_neg hne]
  · exact {
      row := h.view.row
      opened := h.view.opened
      model := h.view.model
      marks := by rw [marks_reserve, if_pos rfl, h.view.marks]
      evidence := h.view.evidence
      asked := h.view.asked }

theorem Mine.refuse (h : Mine g plan gen n c s w) :
    Sound g plan gen n c w
      { s with marks := { s.marks with refused := s.marks.refused || s.marks.heard.isEmpty } }
      { w with ledger := Ledger.refuse c.task.id w.ledger } := by
  refine h.note rfl rfl rfl rfl rfl rfl rfl ?_ (fun _ _ => rfl) ?_ ?_
    ⟨h.proper.merged, h.proper.reviewed⟩ rfl
  · intro id hne
    rw [marks_refuse, if_neg hne]
  · refine h.inv.books.frame rfl rfl rfl rfl rfl rfl rfl ?_ fun id model h => ⟨id, model, h⟩
    intro id
    rw [marks_refuse]
    split
    · next heq => rw [heq]
    · rfl
  · exact {
      row := h.view.row
      opened := h.view.opened
      model := h.view.model
      marks := by rw [marks_refuse, if_pos rfl, h.view.marks]
      evidence := h.view.evidence
      asked := h.view.asked }

theorem Mine.startRunner (h : Mine g plan gen n c s w) (model : String) :
    Sound g plan gen n c w { s with model := some model }
      { w with active := w.active.set c.task.id (model, false) } := by
  refine h.note rfl rfl rfl rfl rfl rfl rfl (fun _ _ => rfl) ?_ ?_ ?_ h.proper rfl
  · intro id hne
    exact Dict.get?_set_of_ne _ _ (Ne.symm hne)
  · refine h.inv.books.frame rfl rfl rfl rfl rfl rfl rfl (fun _ => rfl) ?_
    intro id model' hactive
    rw [Dict.get?_set] at hactive
    split at hactive
    · cases hactive
    · exact ⟨id, model', hactive⟩
  · exact {
      row := h.view.row
      opened := h.view.opened
      model := by rw [Dict.get?_set_self]; rfl
      marks := h.view.marks
      evidence := h.view.evidence
      asked := h.view.asked }

theorem Mine.awaitRunner (h : Mine g plan gen n c s w) {model : String} {cancelled : Bool}
    {r : Except PyExn RunnerResult} (hactive : w.active.get? c.task.id = some (model, cancelled))
    (hraises : (raises r || cancelled) = true)
    (hproper : Proper c.entry.2 { s.marks with heard := s.marks.heard ++ [⟨model, r⟩] } s.evidence) :
    Sound g plan gen n c w
      { s with
        model := none
        marks := { s.marks with heard := s.marks.heard ++ [⟨model, r⟩] }
        asked := s.asked || (⟨model, r⟩ : Heard).cancelled }
      { w with
        active := w.active.pop c.task.id
        ledger := Ledger.hear c.task.id ⟨model, r⟩ w.ledger } := by
  refine h.note rfl rfl rfl rfl rfl rfl rfl ?_ ?_ ?_ ?_ hproper rfl
  · intro id hne
    rw [marks_hear, if_neg hne]
  · intro id hne
    rw [Dict.get?_pop, if_neg (Ne.symm hne)]
  · refine h.inv.books.frame rfl rfl rfl rfl rfl rfl rfl ?_ ?_
    · intro id
      rw [marks_hear]
      split
      · next heq => rw [heq]
      · rfl
    · intro id model' hread
      rw [Dict.get?_pop] at hread
      split at hread
      · cases hread
      · exact ⟨id, model', hread⟩
  · exact {
      row := h.view.row
      opened := h.view.opened
      model := by rw [Dict.get?_pop, if_pos rfl]; rfl
      marks := by rw [marks_hear, if_pos rfl, h.view.marks]
      evidence := h.view.evidence
      asked := by
        intro hasked
        rcases Bool.or_eq_true _ _ ▸ hasked with hold | hgone
        · exact h.view.asked hold
        · -- a runner's task is cancelled only for a request
          have hcancelled : cancelled = true := by
            cases r with
            | ok result => cases hgone
            | error e => cases e <;> first | exact hraises | cases hgone
          rw [hcancelled] at hactive
          exact h.inv.books.cancelled c.task.id model hactive }

theorem Mine.integrate (h : Mine g plan gen n c s w) {r : Except PyExn IntegrationResult}
    (hproper : Proper c.entry.2 { (s.outside r).marks with
      integrations := s.marks.integrations ++ [merged r] } s.evidence) :
    Sound g plan gen n c w
      { s.outside r with
        marks := { (s.outside r).marks with integrations := s.marks.integrations ++ [merged r] } }
      ((w.outside (.coroutine n) .integrate r).note (.coroutine n) fun taskId =>
        Ledger.integrate taskId (merged r)) := by
  cases r with
  | ok integration =>
      rw [World.outside, World.note_eq h.live.1]
      refine h.note rfl rfl rfl rfl rfl rfl rfl ?_ (fun _ _ => rfl) ?_ ?_ hproper rfl
      · intro id hne
        rw [marks_integrate, if_neg hne]
      · refine h.inv.books.frame rfl rfl rfl rfl rfl rfl rfl ?_ fun id model h => ⟨id, model, h⟩
        intro id
        rw [marks_integrate]
        split
        · next heq => rw [heq]
        · rfl
      · exact {
          row := h.view.row
          opened := h.view.opened
          model := h.view.model
          marks := by rw [marks_integrate, if_pos rfl, h.view.marks]; rfl
          evidence := h.view.evidence
          asked := h.view.asked }
  | error e =>
      rw [World.outside_error h.live.1]
      have hnote : ∀ L, World.note (.coroutine n) (fun taskId => Ledger.integrate taskId false)
          { w with ledger := L } = { w with ledger := Ledger.integrate c.task.id false L } :=
        fun L => World.note_eq (w := { w with ledger := L }) h.live.1 _
      have hmark : ∀ L, Ledger.integrate c.task.id false
          (Ledger.mark c.task.id (fun m => { m with raised := true }) L) =
            Ledger.mark c.task.id (fun m =>
              { m with raised := true, integrations := m.integrations ++ [false] }) L := by
        intro L
        simp [Ledger.integrate, Ledger.mark]
      rw [show merged (.error e : Except PyExn IntegrationResult) = false from rfl, hnote, hmark]
      exact h.raise (f := fun m => { m with raised := true, integrations := m.integrations ++ [false] })
        rfl (fun _ => rfl) (fun _ => rfl) hproper

/-- A stored row is found among the rows of its run, in whatever order they come. -/
theorem find_tasksOf {db : Database} (hkeyed : Table.Keyed Task.id db.tasks) (row : Task)
    (hrow : db.findTask row.id = some row) {rows : List Task} (hrows : rows.Perm (db.tasksOf row.runId)) :
    (rows.find? fun r => r.id = row.id) = some row := by
  have hmem : row ∈ rows :=
    hrows.mem_iff.mpr (List.mem_filter.mpr ⟨(Table.mem_of_lookup hrow).1, by simp⟩)
  cases hfind : rows.find? fun r => r.id = row.id with
  | none =>
      have := List.find?_eq_none.mp hfind row hmem
      simp at this
  | some found =>
      have hid : found.id = row.id := by simpa using List.find?_some hfind
      have hstored := List.mem_of_mem_filter (hrows.mem_iff.mp (List.mem_of_find?_eq_some hfind))
      have hread := Table.lookup_of_mem hkeyed hstored
      rw [hid] at hread
      exact hread.symm.trans hrow

theorem Mine.runId (h : Mine g plan gen n c s w) : c.task.runId = gen.runId := by
  obtain ⟨id, _, htask⟩ := (h.inv.spawned n c h.live.1).2
  rw [Coroutine.task, htask]
  rfl

theorem Mine.loadTasks (h : Mine g plan gen n c s w) {rows : List Task}
    (hrows : rows.Perm (w.db.tasksOf c.task.runId)) :
    (rows.find? fun row => row.id = c.task.id) = some (s.row c.task) :=
  find_tasksOf h.inv.keyed (s.row c.task) h.view.row hrows

/-- While a coroutine is live a request is in the registry exactly if one was accepted. -/
theorem Mine.requested (h : Mine g plan gen n c s w) :
    w.ledger.accepted = (w.requested.get? gen.runId).isSome :=
  (h.inv.books.before (h.inv.waiting n c h.live)).2

theorem Mine.isRequested (h : Mine g plan gen n c s w) :
    Sound g plan gen n c w { s with asked := (w.requested.get? c.task.runId).isSome } w := by
  refine ⟨⟨h.inv, h.live, ?_⟩, .inl rfl⟩
  exact {
    row := h.view.row
    opened := h.view.opened
    model := h.view.model
    marks := h.view.marks
    evidence := h.view.evidence
    asked := fun hasked => by
      rw [h.requested, ← h.runId]
      exact hasked }

/-- **What a call of a coroutine does to the world is what `act` does to its share.** -/
theorem Mine.call (h : Mine g plan gen n c s w) {o : Op} {r : Ret o}
    (hexec : exec g (.coroutine n) o w r = some w') :
    ∃ s', act c.task o s r = some s' ∧
      (keeps c.task c.entry.2 o s r s' → Sound g plan gen n c w s' w') := by
  cases o with
  | publish | recordDecision | recordObservation | newEvent | newAttempt | now | cancelRunner =>
      cases hexec
      exact ⟨s, rfl, fun _ => h.same⟩
  | reason runId =>
      simp only [exec] at hexec
      split at hexec
      · cases hexec
        exact ⟨s, rfl, fun _ => h.same⟩
      · cases hexec
  | recordUsage usage =>
      cases hexec
      refine ⟨s, rfl, fun _ => ?_⟩
      refine h.note rfl rfl rfl rfl rfl rfl rfl (fun _ _ => rfl) (fun _ _ => rfl) ?_ ?_ h.proper rfl
      · exact h.inv.books.frame rfl rfl rfl rfl rfl rfl rfl (fun _ => rfl) fun id model h => ⟨id, model, h⟩
      · exact ⟨h.view.row, h.view.opened, h.view.model, h.view.marks, h.view.evidence, h.view.asked⟩
  | loadTasks runId =>
      simp only [exec] at hexec
      split at hexec
      · next hrows =>
          cases hexec
          have hfound : ¬(runId = c.task.runId ∧
              (r.find? fun row => row.id = c.task.id) ≠ some (s.row c.task)) := by
            rintro ⟨rfl, hne⟩
            exact hne (h.loadTasks hrows)
          exact ⟨s, if_neg hfound, fun _ => h.same⟩
      · cases hexec
  | saveAttempt attempt =>
      cases hexec
      exact ⟨_, rfl, fun hkeeps => h.saveAttempt hkeeps.1 hkeeps.2⟩
  | commitAttempt attempt event =>
      cases hexec
      exact ⟨_, rfl, fun hkeeps => h.commitAttempt hkeeps.1 hkeeps.2.1 hkeeps.2.2⟩
  | commitTask task event =>
      cases hexec
      exact ⟨_, rfl, fun hkeeps => h.commitTask rfl hkeeps.1 hkeeps.2⟩
  | saveEvidence evidence =>
      cases hexec
      exact ⟨_, rfl, fun hkeeps => h.saveEvidence hkeeps.1 hkeeps.2⟩
  | reserveAttempt =>
      simp only [exec] at hexec
      split at hexec
      · cases hexec
        refine ⟨_, rfl, fun _ => ?_⟩
        rw [World.note_eq (w := { w with budget := w.budget.reserveAttempt.2 }) h.live.1]
        exact h.reserve _
      · split at hexec
        · cases hexec
          refine ⟨_, rfl, fun _ => ?_⟩
          rw [World.note_eq h.live.1]
          exact h.refuse
        · cases hexec
      · cases hexec
  | isRequested runId poll =>
      simp only [exec] at hexec
      split at hexec
      · next hr =>
          cases hexec
          by_cases hrun : runId = c.task.runId
          · subst hrun
            have hanswer : (s.asked && !r) = false := by
              cases hasked : s.asked with
              | false => rfl
              | true =>
                  have := h.requested.symm.trans (h.view.asked hasked)
                  rw [hr, h.runId, this]
                  rfl
            refine ⟨{ s with asked := r }, by simp [act, hanswer], fun hkeeps => ?_⟩
            rw [if_neg fun hpoll => hkeeps.2 hpoll.1, hr]
            exact h.isRequested
          · exact ⟨s, if_neg hrun, fun hkeeps => absurd hkeeps.1 hrun⟩
      · cases hexec
  | resolve name =>
      simp only [exec] at hexec
      split at hexec
      · cases hexec
        refine ⟨_, rfl, fun _ => ?_⟩
        cases r with
        | true => exact h.same
        | false =>
            have hsound : ∀ r : Except PyExn Unit, Sound g plan gen n c w (s.outside r)
                (w.outside (.coroutine n) .resolve r) := fun _ => h.outside rfl
            exact hsound (.error (.valueError s!"Unknown runner: {name}"))
      · cases hexec
  | startRunner taskId prompt config =>
      cases hexec
      refine ⟨_, rfl, fun hkeeps => ?_⟩
      cases hkeeps
      exact h.startRunner config.model
  | awaitRunner taskId =>
      by_cases htask : taskId = c.task.id
      · subst htask
        simp only [exec] at hexec
        split at hexec
        · cases hexec
        · next model cancelled hactive =>
            split at hexec
            · next hraises =>
                cases hexec
                have hmodel : s.model = some model := by rw [← h.view.model, hactive]; rfl
                refine ⟨_, by simp only [act, if_true, hmodel, Option.map_some]; rfl, fun hkeeps => ?_⟩
                exact h.awaitRunner hactive hraises hkeeps.2
            · cases hexec
      · exact ⟨s, if_neg htask, fun hkeeps => absurd hkeeps.1 htask⟩
  | createWorktree goalId taskId =>
      simp only [exec] at hexec
      split at hexec
      · next hraises =>
          cases hexec
          exact ⟨_, if_pos hraises, fun _ => h.outside rfl⟩
      · cases hexec
  | commitAll worktree message =>
      simp only [exec] at hexec
      split at hexec
      · next hraises =>
          cases hexec
          exact ⟨_, if_pos hraises, fun _ => h.outside rfl⟩
      · cases hexec
  | integrate worktree target =>
      simp only [exec] at hexec
      split at hexec
      · next hraises =>
          cases hexec
          refine ⟨_, if_pos hraises, fun hkeeps => h.integrate ?_⟩
          have hevidence : (s.outside r).evidence = s.evidence := by cases r <;> rfl
          rw [← hevidence]
          exact hkeeps
      · cases hexec
  | _ => exact ⟨s, rfl, False.elim⟩

end Calls

end AtlasFlow.Reference
