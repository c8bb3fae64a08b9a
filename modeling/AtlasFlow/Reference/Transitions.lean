import AtlasFlow.Reference.Connection

/-!
# Transitions, and what a query may see of them

Where no transition is cancelled between its statements, and none fails whose row has been read, a
transition is on disk with its event or not at all, and what a query has read gets there.
-/

namespace AtlasFlow.Reference.Connection

open Concurrency

/-! ## What is promised -/

/-- The coroutine records a transition. -/
def Records (method : Nat → Method) (n : Nat) : Prop := ∃ change event, method n = .transition change event

/-- **A transition is on disk if and only if its event is.** -/
def Atomic (method : Nat → Method) (w : World) : Prop :=
  ∀ n change event, method n = .transition change event →
    ((n, change.row) ∈ w.committed ↔ (n, Row.event event) ∈ w.committed)

/-- A coroutine has ended. -/
def Over (c : Conf Nat Op Ret PyExn Unit Unit World) (n : Nat) : Prop :=
  (∃ r, c.cur n = .ret (.inr r)) ∨ ∃ exc, c.cur n = .raise exc

/-- A row was there before, or a statement wrote it that is committed, or no transition, or a transition whose
coroutine has not ended. -/
def Reliable (method : Nat → Method) (c : Conf Nat Op Ret PyExn Unit Unit World) (row : Row) : Prop :=
  (∃ query, row ∈ select query c.world.opened) ∨ (∃ n, (n, row) ∈ c.world.committed) ∨
    ∃ n, row ∈ (method n).rows ∧ (Records method n → (n, row) ∈ c.world.pending ∧ ¬Over c n)

/-- **No `load_*` method has got a row whose transition will not be committed.** -/
def Faithful (method : Nat → Method) (c : Conf Nat Op Ret PyExn Unit Unit World) : Prop :=
  ∀ row ∈ c.world.returned, Reliable method c row

/-- Something of the coroutine's is in the open transaction. -/
def begun (n : Nat) (w : World) : Bool := w.pending.any fun e => e.1 = n

/-- Something of the coroutine's is in the open transaction and has been read. -/
def exposed (n : Nat) (w : World) : Bool := w.pending.any fun e => e.1 = n && e.2 ∈ w.read

/-- No transition is cancelled at the `await` of a statement when something of it has been executed, and none is
rolled back when something of it has been read. -/
def undisturbed (method : Nat → Method) (n : Nat) (o : Op) (w : World) (r : Ret o) : Bool :=
  match method n with
  | .transition .. =>
    match o, r with
    | .execute _, ⟨done, .error .cancelledError⟩ => !(done || begun n w)
    | .rollback, _ => !exposed n w
    | _, _ => true
  | _ => true

/-! ## What is written and what is read -/

theorem select_write {query : Query} {row row' : Row} {db : Tables} (h : row' ∈ select query (write row db)) :
    row' ∈ select query db ∨ row' = row := by
  cases row <;> cases query <;>
    simp only [select, write, Database.upsertRun, Database.upsertTask, Database.upsertAttempt,
      Database.insertEvent, List.mem_map, List.mem_filter, Table.mem_upsert] at h ⊢
  all_goals grind

/-- What a query sees was there, or has been written. -/
theorem select_tables {w : World} {query : Query} {row : Row} {entries : List Entry}
    (h : row ∈ select query (w.tables entries)) : row ∈ select query w.opened ∨ ∃ n, (n, row) ∈ entries := by
  induction entries using List.reverseRecOn with
  | nil => exact .inl h
  | append_singleton entries entry ih =>
      rw [World.tables, List.foldl_append] at h
      rcases select_write h with hold | rfl
      · rcases ih hold with hopened | ⟨n, hn⟩
        · exact .inl hopened
        · exact .inr ⟨n, List.mem_append_left _ hn⟩
      · exact .inr ⟨entry.1, by simp⟩

/-! ## What every await keeps -/

variable {method : Nat → Method} {n m : Nat} {w w' : World} {change : Change} {event : DomainEvent}

/-- A row was there before, or a statement has written it, or may write it and is no transition's. -/
def Backed (method : Nat → Method) (w : World) (row : Row) : Prop :=
  (∃ query, row ∈ select query w.opened) ∨ (∃ n, (n, row) ∈ w.committed ++ w.pending) ∨
    ∃ n, row ∈ (method n).rows ∧ ¬Records method n

/-- What holds in every state: the open transaction holds no transition but that of the lock's holder. -/
structure Sound (method : Nat → Method) (w : World) : Prop where
  origin : ∀ e ∈ w.committed ++ w.pending, e.2 ∈ (method e.1).rows
  atomic : Atomic method w
  owner : ∀ e ∈ w.pending, Records method e.1 → w.lock = some e.1
  read : ∀ row ∈ w.read, Backed method w row
  returned : ∀ row ∈ w.returned, row ∈ w.read

/-- What a coroutine does to the connection. -/
structure Step (method : Nat → Method) (n : Nat) (w w' : World) : Prop where
  sound : Sound method w'
  held : ∀ m, m ≠ n → w.lock = some m →
    w'.lock = some m ∧ w'.pending = w.pending ∧ w'.committed = w.committed
  pending : ∀ e ∈ w'.pending, e.1 ≠ n → e ∈ w.pending
  committed : ∀ e ∈ w'.committed, e.1 ≠ n → e ∈ w.committed ∨ e ∈ w.pending
  read : ∀ row ∈ w.read, row ∈ w'.read

/-- The coroutine has written nothing of a transition. -/
structure Clear (method : Nat → Method) (n : Nat) (w : World) : Prop where
  sound : Sound method w
  clear : Records method n → ∀ row, (n, row) ∉ w.committed ++ w.pending

/-- The coroutine holds the lock, and has executed these statements of its transition. -/
structure Inside (method : Nat → Method) (n : Nat) (rows : List Row) (w : World) : Prop where
  sound : Sound method w
  lock : w.lock = some n
  pending : Records method n → ∀ row, (n, row) ∈ w.pending ↔ row ∈ rows
  committed : Records method n → ∀ row, (n, row) ∉ w.committed

/-- The coroutine has nothing in the open transaction, if it records a transition. -/
structure Through (method : Nat → Method) (n : Nat) (w : World) : Prop where
  sound : Sound method w
  through : Records method n → ∀ row, (n, row) ∉ w.pending

/-- And it holds the lock. -/
structure Leaving (method : Nat → Method) (n : Nat) (w : World) : Prop extends Through method n w where
  lock : w.lock = some n

theorem Clear.step (h : Clear method n w) (hne : m ≠ n) (hstep : Step method m w w') : Clear method n w' where
  sound := hstep.sound
  clear hrecords row hmem := by
    rcases List.mem_append.mp hmem with hcommitted | hpending
    · exact h.clear hrecords row (List.mem_append.mpr (hstep.committed _ hcommitted (Ne.symm hne)))
    · exact h.clear hrecords row (List.mem_append_right _ (hstep.pending _ hpending (Ne.symm hne)))

theorem Inside.step {rows : List Row} (h : Inside method n rows w) (hne : m ≠ n) (hstep : Step method m w w') :
    Inside method n rows w' := by
  obtain ⟨hlock, hpending, hcommitted⟩ := hstep.held n (Ne.symm hne) h.lock
  refine ⟨hstep.sound, hlock, ?_, ?_⟩
  · rw [hpending]
    exact h.pending
  · rw [hcommitted]
    exact h.committed

theorem Through.step (h : Through method n w) (hne : m ≠ n) (hstep : Step method m w w') :
    Through method n w' where
  sound := hstep.sound
  through hrecords row hmem := h.through hrecords row (hstep.pending _ hmem (Ne.symm hne))

theorem Leaving.step (h : Leaving method n w) (hne : m ≠ n) (hstep : Step method m w w') :
    Leaving method n w' where
  toThrough := h.toThrough.step hne hstep
  lock := (hstep.held n (Ne.symm hne) h.lock).1

theorem Clear.through (h : Clear method n w) : Through method n w where
  sound := h.sound
  through hrecords row hmem := h.clear hrecords row (List.mem_append_right _ hmem)

/-- The contract of a coroutine. -/
abbrev coroutine (method : Nat → Method) (n : Nat) : Contract Op Ret World :=
  stepContract ((connection method).restrict (undisturbed method)).exec (Step method) n

/-! ### Single awaits -/

/-- Rows are read that are visible. -/
theorem Sound.reads (h : Sound method w) {rows rows' : List Row}
    (hrows : ∀ row ∈ rows, ∃ query, row ∈ select query w.visible)
    (hreturned : ∀ row ∈ rows', row ∈ w.read ++ rows) :
    Sound method { w with read := w.read ++ rows, returned := w.returned ++ rows' } where
  origin := h.origin
  atomic := h.atomic
  owner := h.owner
  read row hrow := by
    rcases List.mem_append.mp hrow with hold | hnew
    · exact h.read row hold
    · obtain ⟨query, hvisible⟩ := hrows row hnew
      rcases select_tables hvisible with hopened | hwritten
      · exact .inl ⟨query, hopened⟩
      · exact .inr (.inl hwritten)
  returned row hrow := by
    rcases List.mem_append.mp hrow with hold | hnew
    · exact List.mem_append_left _ (h.returned row hold)
    · exact hreturned row hnew

/-- An `await` that leaves the lock and the statements alone. -/
theorem Step.frame (hsound : Sound method w') (hlock : w'.lock = w.lock) (hpending : w'.pending = w.pending)
    (hcommitted : w'.committed = w.committed) (hread : ∀ row ∈ w.read, row ∈ w'.read) : Step method n w w' where
  sound := hsound
  held m _ hm := ⟨hlock.trans hm, hpending, hcommitted⟩
  pending e he _ := by rwa [hpending] at he
  committed e he _ := by
    rw [hcommitted] at he
    exact .inl he
  read := hread

theorem Step.refl (hsound : Sound method w) : Step method n w w := .frame hsound rfl rfl rfl fun _ h => h

/-- The lock is taken. -/
theorem Clear.acquire (h : Clear method n w) (hfree : w.lock = none) :
    Step method n w { w with lock := some n } ∧ Inside method n [] { w with lock := some n } := by
  have hsound : Sound method { w with lock := some n } := by
    refine ⟨h.sound.origin, h.sound.atomic, fun e he hrecords => ?_, h.sound.read, h.sound.returned⟩
    have hlock := h.sound.owner e he hrecords
    rw [hfree] at hlock
    cases hlock
  constructor
  · refine ⟨hsound, fun m _ hm => ?_, fun _ he _ => he, fun _ he _ => .inl he, fun _ hrow => hrow⟩
    rw [hfree] at hm
    cases hm
  · refine ⟨hsound, rfl, fun hrecords row => ?_, fun hrecords row hmem => ?_⟩
    · exact iff_of_false (fun hmem => h.clear hrecords row (List.mem_append_right _ hmem)) List.not_mem_nil
    · exact h.clear hrecords row (List.mem_append_left _ hmem)

/-- The lock is released. -/
theorem Leaving.release (h : Leaving method n w) :
    Step method n w { w with lock := none } ∧ Through method n { w with lock := none } := by
  have hsound : Sound method { w with lock := none } := by
    refine ⟨h.sound.origin, h.sound.atomic, fun e he hrecords => ?_, h.sound.read, h.sound.returned⟩
    have hlock := h.sound.owner e he hrecords
    rw [h.lock] at hlock
    cases hlock
    exact absurd he (h.through hrecords e.2)
  constructor
  · refine ⟨hsound, fun m hm hlock => ?_, fun _ he _ => he, fun _ he _ => .inl he, fun _ hrow => hrow⟩
    rw [h.lock] at hlock
    exact absurd (Option.some.inj hlock).symm hm
  · exact ⟨hsound, h.through⟩

/-- A statement of the coroutine is executed. -/
theorem Inside.execute {rows : List Row} {row : Row} (h : Inside method n rows w) (hrow : row ∈ (method n).rows) :
    Step method n w { w with pending := w.pending ++ [(n, row)] } ∧
      Inside method n (rows ++ [row]) { w with pending := w.pending ++ [(n, row)] } := by
  have hsound : Sound method { w with pending := w.pending ++ [(n, row)] } := by
    refine ⟨?_, h.sound.atomic, ?_, ?_, h.sound.returned⟩
    · intro e he
      rw [← List.append_assoc] at he
      rcases List.mem_append.mp he with hold | hnew
      · exact h.sound.origin e hold
      · rw [List.mem_singleton.mp hnew]
        exact hrow
    · intro e he hrecords
      rcases List.mem_append.mp he with hold | hnew
      · exact h.sound.owner e hold hrecords
      · rw [List.mem_singleton.mp hnew]
        exact h.lock
    · intro read hread
      rcases h.sound.read read hread with hopened | ⟨m, hm⟩ | hother
      · exact .inl hopened
      · refine .inr (.inl ⟨m, ?_⟩)
        rw [← List.append_assoc]
        exact List.mem_append_left _ hm
      · exact .inr (.inr hother)
  constructor
  · refine ⟨hsound, fun m hm hlock => ?_, fun e he hne => ?_, fun _ he _ => .inl he, fun _ hrow => hrow⟩
    · rw [h.lock] at hlock
      exact absurd (Option.some.inj hlock).symm hm
    · rcases List.mem_append.mp he with hold | hnew
      · exact hold
      · rw [List.mem_singleton.mp hnew] at hne
        exact absurd rfl hne
  · refine ⟨hsound, h.lock, fun hrecords row' => ?_, h.committed⟩
    rw [List.mem_append, List.mem_append, h.pending hrecords row', List.mem_singleton, List.mem_singleton]
    exact or_congr_right ⟨fun heq => (Prod.mk.inj heq).2, fun heq => heq ▸ rfl⟩

/-- The open transaction is committed, with all statements of the coroutine. -/
theorem Inside.commit (h : Inside method n (method n).rows w) :
    Step method n w { w with committed := w.committed ++ w.pending, pending := [] } ∧
      Leaving method n { w with committed := w.committed ++ w.pending, pending := [] } := by
  have hsound : Sound method { w with committed := w.committed ++ w.pending, pending := [] } := by
    refine ⟨?_, ?_, fun _ he => absurd he List.not_mem_nil, ?_, h.sound.returned⟩
    · rw [List.append_nil]
      exact h.sound.origin
    · intro m change event hm
      have hrecords : Records method m := ⟨change, event, hm⟩
      show (m, change.row) ∈ w.committed ++ w.pending ↔ (m, Row.event event) ∈ w.committed ++ w.pending
      rw [List.mem_append, List.mem_append]
      by_cases hown : m = n
      · subst hown
        rw [h.pending hrecords, h.pending hrecords, hm]
        simp [Method.rows]
      · -- only the holder's transition is open
        have hnone : ∀ row, (m, row) ∉ w.pending := by
          intro row hmem
          have hlock := h.sound.owner _ hmem hrecords
          rw [h.lock] at hlock
          exact hown (Option.some.inj hlock).symm
        rw [or_iff_left (hnone _), or_iff_left (hnone _)]
        exact h.sound.atomic m change event hm
    · intro row hrow
      rcases h.sound.read row hrow with hopened | hwritten | hother
      · exact .inl hopened
      · refine .inr (.inl ?_)
        rw [List.append_nil]
        exact hwritten
      · exact .inr (.inr hother)
  constructor
  · refine ⟨hsound, fun m hm hlock => ?_, fun _ he => absurd he List.not_mem_nil, fun e he _ => ?_, fun _ hrow => hrow⟩
    · rw [h.lock] at hlock
      exact absurd (Option.some.inj hlock).symm hm
    · exact List.mem_append.mp he
  · exact ⟨⟨hsound, fun _ _ => List.not_mem_nil⟩, h.lock⟩

/-- The open transaction is rolled back, and no statement of the coroutine has been read. -/
theorem Inside.rollback {rows : List Row} (h : Inside method n rows w) 
    (hunread : ∀ row, (n, row) ∈ w.pending → row ∉ w.read) :
    Step method n w { w with pending := [] } ∧ Leaving method n { w with pending := [] } := by
  have hsound : Sound method { w with pending := [] } := by
    refine ⟨?_, h.sound.atomic, fun _ he => absurd he List.not_mem_nil, ?_, h.sound.returned⟩
    · rw [List.append_nil]
      exact fun e he => h.sound.origin e (List.mem_append_left _ he)
    · intro row hrow
      rcases h.sound.read row hrow with hopened | ⟨m, hwritten⟩ | hother
      · exact .inl hopened
      · rcases List.mem_append.mp hwritten with hcommitted | hpending
        · refine .inr (.inl ⟨m, ?_⟩)
          rw [List.append_nil]
          exact hcommitted
        · by_cases hrecords : Records method m
          · have hlock := h.sound.owner _ hpending hrecords
            rw [h.lock] at hlock
            cases hlock
            exact absurd hrow (hunread row hpending)
          · exact .inr (.inr ⟨m, h.sound.origin _ (List.mem_append_right _ hpending), hrecords⟩)
      · exact .inr (.inr hother)
  constructor
  · refine ⟨hsound, fun m hm hlock => ?_, fun _ he => absurd he List.not_mem_nil, fun _ he _ => .inl he, fun _ hrow => hrow⟩
    rw [h.lock] at hlock
    exact absurd (Option.some.inj hlock).symm hm
  · exact ⟨⟨hsound, fun _ _ => List.not_mem_nil⟩, h.lock⟩

/-! ### The methods -/

section Methods

variable {α : Type} {Q : α → World → Prop} {F : PyExn → World → Prop}

/-- The rule for one `await`. -/
theorem wp_await {o : Op} {k : Ret o → Program α} (P : World → Prop) (hP : P w)
    (hstable : ∀ m w w', m ≠ n → Step method m w w' → P w → P w')
    (hcall : ∀ w r w', P w → undisturbed method n o w r = true → exec n o w r = some w' →
      Step method n w w' ∧ wp (coroutine method n) (k r) Q F w') :
    wp (coroutine method n) (.call o k) Q F w := by
  apply wp_call_step P hP hstable
  intro w r w' hw hexec
  obtain ⟨hok, hexec⟩ := System.exec_restrict (S := connection method) |>.mp hexec
  exact hcall w r w' hw hok hexec

/-- **`async with self._lock`.** -/
theorem wp_withLock {body : Program α} (h : Clear method n w)
    (hbody : ∀ w, Inside method n [] w → wp (coroutine method n) body (fun _ => Leaving method n)
      (fun _ => Leaving method n) w) :
    wp (coroutine method n) (withLock body) (fun _ => Through method n) (fun _ => Through method n) w := by
  -- both ways out of the body release the lock
  have hrelease : ∀ {β : Type} (k : Unit → Program β) {Q : β → World → Prop} (w : World), Leaving method n w →
      (∀ w, Through method n w → wp (coroutine method n) (k ()) Q (fun _ => Through method n) w) →
      wp (coroutine method n) (.call .release k) Q (fun _ => Through method n) w := by
    intro β k Q w hw hk
    apply wp_await (Leaving method n) hw fun m w w' hne hstep hw => hw.step hne hstep
    intro w r w' hw _ hexec
    cases hexec
    exact ⟨hw.release.1, hk _ hw.release.2⟩
  unfold withLock await
  simp only [Prog.bind_eq, Prog.tryCatch_eq, Prog.throw_eq, Prog.pure_eq, Prog.op_bind, Prog.call_bind]
  apply wp_await (Clear method n) h fun m w w' hne hstep hw => hw.step hne hstep
  intro w r w' hw _ hexec
  simp only [exec] at hexec
  split at hexec
  · split at hexec
    · next hfree =>
        cases hexec
        obtain ⟨hstep, hinside⟩ := hw.acquire hfree
        refine ⟨hstep, ?_⟩
        rw [Prog.ofExcept_ok, Prog.ret_bind]
        refine wp_seq (M := fun _ => Leaving method n) (wp_handle.mpr (wp_mono (hbody _ hinside) ?_ ?_)) ?_
        · exact fun _ _ hw => hw
        · exact fun exc w hw => hrelease _ w hw fun _ hw => hw
        · exact fun a w hw => hrelease _ w hw fun _ hw => hw
    · cases hexec
  · split at hexec
    · cases hexec
      exact ⟨.refl hw.sound, hw.through⟩
    · cases hexec

/-- How an `await` of a statement leaves a coroutine that it raises in: what it had executed is still in the open
transaction, and nothing if it was cancelled. -/
def Interrupted (method : Nat → Method) (n : Nat) (exc : PyExn) (w : World) : Prop :=
  (∃ rows, Inside method n rows w) ∧ (exc = .cancelledError → Leaving method n w)

/-- **`conn.execute`.** -/
theorem wp_executeRow {rows : List Row} {row : Row} (hrow : row ∈ (method n).rows) (h : Inside method n rows w) :
    wp (coroutine method n) (executeRow row) (fun _ => Inside method n (rows ++ [row]))
      (Interrupted method n) w := by
  unfold executeRow
  simp only [Prog.bind_eq, Prog.op_bind]
  apply wp_await (Inside method n rows) h fun m w w' hne hstep hw => hw.step hne hstep
  rintro w ⟨done, outcome⟩ w' hw hok hexec
  simp only [exec] at hexec
  obtain ⟨hstep, hexecuted⟩ := hw.execute hrow
  cases outcome with
  | ok value =>
      cases done with
      | true =>
          cases hexec
          exact ⟨hstep, hexecuted⟩
      | false => cases hexec
  | error exc =>
      cases done with
      | true =>
          -- cancelled, when it had been executed
          rw [if_pos rfl] at hexec
          split at hexec
          · next hcancelled =>
              cases hexec
              cases of_decide_eq_true hcancelled
              refine ⟨hstep, ⟨_, hexecuted⟩, fun _ => ⟨⟨hexecuted.sound, fun hrecords => ?_⟩, hexecuted.lock⟩⟩
              obtain ⟨change, event, hmethod⟩ := hrecords
              simp [undisturbed, hmethod] at hok
          · cases hexec
      | false =>
          cases hexec
          refine ⟨.refl hw.sound, ⟨rows, hw⟩, fun hcancelled => ⟨⟨hw.sound, fun hrecords row hmem => ?_⟩, hw.lock⟩⟩
          obtain ⟨change, event, hmethod⟩ := hrecords
          subst hcancelled
          have hnone : begun n w = false := by simpa [undisturbed, hmethod] using hok
          exact absurd (List.any_eq_true.mpr ⟨_, hmem, decide_eq_true rfl⟩) (Bool.eq_false_iff.mp hnone)

/-- `conn.commit`, when all statements of the coroutine have been executed. -/
theorem wp_commitAll (h : Inside method n (method n).rows w) :
    wp (coroutine method n) (await (call .commit)) (fun _ => Leaving method n) (fun _ => Leaving method n) w := by
  unfold await
  simp only [Prog.op_bind]
  apply wp_await (Inside method n (method n).rows) h fun m w w' hne hstep hw => hw.step hne hstep
  intro w r w' hw _ hexec
  simp only [exec] at hexec
  split at hexec
  · cases hexec
    refine ⟨hw.commit.1, ?_⟩
    cases r <;> exact hw.commit.2
  · cases hexec

/-- A coroutine that records nothing may hold the lock with whatever it has executed. -/
theorem Inside.leaving {rows : List Row} (h : Inside method n rows w) (hrecords : ¬Records method n) :
    Leaving method n w :=
  ⟨⟨h.sound, fun hrecorded => absurd hrecorded hrecords⟩, h.lock⟩

theorem Inside.all {rows : List Row} (h : Inside method n rows w) (hrecords : ¬Records method n) :
    Inside method n (method n).rows w :=
  ⟨h.sound, h.lock, fun hrecorded => absurd hrecorded hrecords, fun hrecorded => absurd hrecorded hrecords⟩

/-- **`_execute`.** -/
theorem wp_execute {row : Row} (hrow : row ∈ (method n).rows) (hrecords : ¬Records method n)
    (h : Clear method n w) :
    wp (coroutine method n) (execute row) (fun _ => Through method n) (fun _ => Through method n) w := by
  apply wp_withLock h
  intro w hw
  have hexecuted := wp_executeRow hrow hw
  apply wp_seq (M := fun _ => Inside method n ([] ++ [row])) (wp_mono hexecuted (fun _ _ hw => hw) ?_) ?_
  · rintro exc w ⟨⟨rows, hinside⟩, _⟩
    exact hinside.leaving hrecords
  · exact fun _ w hw => wp_commitAll (hw.all hrecords)

/-- **`_transaction`** of a transition. -/
theorem wp_transaction (hmethod : method n = .transition change event) (h : Clear method n w) :
    wp (coroutine method n) (transaction [change.row, .event event]) (fun _ => Through method n)
      (fun _ => Through method n) w := by
  have hrows : (method n).rows = [change.row, .event event] := by rw [hmethod]; rfl
  apply wp_withLock h
  intro w hw
  apply wp_seq (M := fun _ => Inside method n (method n).rows)
  · have hstatements : wp (coroutine method n) (Prog.forEach executeRow (method n).rows)
        (fun _ => Inside method n (method n).rows) (Interrupted method n) w := by
      apply wp_forEach (fun rows => Inside method n rows) hw
      intro done row rest w hall hw
      refine wp_executeRow ?_ hw
      rw [hall]
      exact List.mem_append_right _ List.mem_cons_self
    rw [hrows] at hstatements
    rw [hrows]
    apply wp_handle.mpr
    refine wp_mono hstatements (fun _ _ hw => hw) ?_
    · rintro exc w ⟨⟨rows, hinside⟩, hleaving⟩
      simp only [Prog.bind_eq, Prog.throw_eq]
      split
      · next hcancelled => exact hleaving hcancelled
      · unfold await
        simp only [Prog.op_bind, Prog.call_bind]
        apply wp_await (Inside method n rows) hinside fun m w w' hne hstep hw => hw.step hne hstep
        intro w r w' hw hok hexec
        have hunread : ∀ row, (n, row) ∈ w.pending → row ∉ w.read := by
          intro row hmem hread
          have hnone : exposed n w = false := by simpa [undisturbed, hmethod] using hok
          refine absurd (List.any_eq_true.mpr ⟨_, hmem, ?_⟩) (Bool.eq_false_iff.mp hnone)
          simpa using hread
        simp only [exec] at hexec
        split at hexec
        · cases hexec
          obtain ⟨hstep, hleaving⟩ := hw.rollback hunread
          refine ⟨hstep, ?_⟩
          cases r <;> exact hleaving
        · cases hexec
  · exact fun _ w hw => wp_commitAll hw

/-- An `await` that changes neither the lock nor a statement. -/
structure Idle (method : Nat → Method) (w w' : World) : Prop where
  sound : Sound method w'
  lock : w'.lock = w.lock
  pending : w'.pending = w.pending
  committed : w'.committed = w.committed
  read : ∀ row ∈ w.read, row ∈ w'.read

/-- What such an `await` and all others keep. -/
structure Kept (method : Nat → Method) (n : Nat) (P : World → Prop) : Prop where
  sound : ∀ w, P w → Sound method w
  step : ∀ m w w', m ≠ n → Step method m w w' → P w → P w'
  idle : ∀ w w', Idle method w w' → P w → P w'

theorem Clear.kept : Kept method n (Clear method n) where
  sound _ hw := hw.sound
  step m w w' hne hstep hw := hw.step hne hstep
  idle w w' hidle hw := by
    refine ⟨hidle.sound, ?_⟩
    rw [hidle.committed, hidle.pending]
    exact hw.clear

theorem Through.kept : Kept method n (Through method n) where
  sound _ hw := hw.sound
  step m w w' hne hstep hw := hw.step hne hstep
  idle w w' hidle hw := by
    refine ⟨hidle.sound, ?_⟩
    rw [hidle.pending]
    exact hw.through

/-- The rule for such an `await`. -/
theorem Kept.wp_idle {P : World → Prop} {o : Op} {k : Ret o → Program α} (hkept : Kept method n P) (h : P w)
    (hidle : ∀ w r w', P w → exec n o w r = some w' → Idle method w w')
    (hrest : ∀ r w w', exec n o w r = some w' → P w' → wp (coroutine method n) (k r) Q F w') :
    wp (coroutine method n) (.call o k) Q F w := by
  apply wp_await P h hkept.step
  intro w r w' hw _ hexec
  have hsame := hidle w r w' hw hexec
  exact ⟨.frame hsame.sound hsame.lock hsame.pending hsame.committed hsame.read,
    hrest r w w' hexec (hkept.idle w w' hsame hw)⟩

/-- `await self._publish(event)`. -/
theorem Kept.wp_publish {P : World → Prop} (hkept : Kept method n P) (h : P w) :
    wp (coroutine method n) (await (call (.publish event))) (fun _ => P) (fun _ => P) w := by
  unfold await
  simp only [Prog.op_bind]
  apply hkept.wp_idle (o := .publish event) h
  · intro w r w' hw hexec
    simp only [exec] at hexec
    split at hexec
    · cases hexec
      exact ⟨hkept.sound _ hw, rfl, rfl, rfl, fun _ hrow => hrow⟩
    · cases hexec
  · intro r w w' _ hw
    cases r <;> exact hw

/-- What a query sees has been read. -/
theorem Sound.idle (h : Sound method w) (query : Query) {rows : List Row}
    (hreturned : ∀ row ∈ rows, row ∈ w.read ++ select query w.visible) :
    Idle method w { w with read := w.read ++ select query w.visible, returned := w.returned ++ rows } :=
  ⟨h.reads (fun _ hrow => ⟨query, hrow⟩) hreturned, rfl, rfl, rfl, fun _ hrow => List.mem_append_left _ hrow⟩

theorem Sound.idle_nil (h : Sound method w) (query : Query) :
    Idle method w { w with read := w.read ++ select query w.visible } := by
  have hread := h.idle query (fun row (hrow : row ∈ []) => absurd hrow List.not_mem_nil)
  rw [List.append_nil] at hread
  exact hread

/-- **The body of a `load_*` method.** -/
theorem Kept.wp_load {P : World → Prop} (hkept : Kept method n P) (query : Query) (h : P w) :
    wp (coroutine method n) (load query) (fun _ => P) (fun _ => P) w := by
  unfold load await
  simp only [Prog.bind_eq, Prog.op_bind, Prog.call_bind]
  apply hkept.wp_idle (o := .query query) h
  · intro w r w' hw hexec
    simp only [exec] at hexec
    split at hexec
    · split at hexec
      · cases hexec
        exact (hkept.sound _ hw).idle_nil query
      · cases hexec
    · cases hexec
      exact (hkept.sound _ hw).idle_nil query
  · intro r w w' hexec hw
    cases r with
    | error exc => exact hw
    | ok cursor =>
        have hcursor : ∀ row ∈ cursor, row ∈ w'.read := by
          simp only [exec] at hexec
          split at hexec
          · next hperm =>
              cases hexec
              exact fun row hrow => List.mem_append_right _ (hperm.mem_iff.mp hrow)
          · cases hexec
        -- what the cursor holds has been read
        have hheld : Kept method n fun w => P w ∧ ∀ row ∈ cursor, row ∈ w.read :=
          ⟨fun w hw => hkept.sound w hw.1,
            fun m w w' hne hstep hw => ⟨hkept.step m w w' hne hstep hw.1, fun row hrow => hstep.read _ (hw.2 row hrow)⟩,
            fun w w' hidle hw => ⟨hkept.idle w w' hidle hw.1, fun row hrow => hidle.read _ (hw.2 row hrow)⟩⟩
        rw [Prog.ofExcept_ok, Prog.ret_bind]
        apply hheld.wp_idle (o := .fetch query cursor) ⟨hw, hcursor⟩
        · intro w r w' hw hexec
          simp only [exec] at hexec
          split at hexec
          · split at hexec
            · next hrows =>
                cases hexec
                refine (hkept.sound _ hw.1).idle query fun row hrow => ?_
                have hsource := of_decide_eq_true (List.all_eq_true.mp hrows row hrow)
                exact List.mem_append.mpr (hsource.imp_left (hw.2 row))
            · cases hexec
          · cases hexec
            exact (hkept.sound _ hw.1).idle_nil query
        · intro r w w' _ hw
          cases r <;> exact hw.1

/-- **`record_*_transition`.** -/
theorem wp_recordTransition (hmethod : method n = .transition change event) (h : Clear method n w) :
    wp (coroutine method n) (recordTransition change event) (fun _ => Through method n)
      (fun _ => Through method n) w := by
  unfold recordTransition
  simp only [Prog.bind_eq, Prog.throw_eq]
  split
  · exact wp_seq (wp_transaction hmethod h) fun _ w hw => Through.kept.wp_publish hw
  · exact h.through

/-- **`save_plan`.** -/
theorem wp_savePlan {plan : PlanRecord} (hrow : .plan plan ∈ (method n).rows) (hrecords : ¬Records method n)
    (h : Clear method n w) :
    wp (coroutine method n) (savePlan plan) (fun _ => Through method n) (fun _ => Through method n) w := by
  unfold savePlan
  apply wp_seq (wp_mono (Clear.kept.wp_load (.plan plan.id) h) (fun _ _ hw => hw) fun _ _ hw => hw.through)
  intro rows w hw
  split
  · split
    · exact wp_execute hrow hrecords hw
    · split
      · exact hw.through
      · exact hw.through
  · exact wp_execute hrow hrecords hw

theorem not_records (h : (method n).isTransition = false) : ¬Records method n := by
  rintro ⟨change, event, hmethod⟩
  rw [hmethod] at h
  cases h

/-- **Every method keeps the invariant**, and leaves nothing of a transition in the open transaction. -/
theorem wp_program (h : Clear method n w) :
    wp (coroutine method n) (program (method n)) (fun _ => Through method n) (fun _ => Through method n) w := by
  cases hmethod : method n with
  | transition change event => exact wp_recordTransition hmethod h
  | save row =>
      have hrow : row ∈ (method n).rows := by simp [hmethod, Method.rows]
      exact wp_execute hrow (not_records (by rw [hmethod]; rfl)) h
  | saveEvent event =>
      have hrow : .event event ∈ (method n).rows := by simp [hmethod, Method.rows]
      exact wp_seq (wp_execute hrow (not_records (by rw [hmethod]; rfl)) h) fun _ w hw => Through.kept.wp_publish hw
  | savePlan plan =>
      have hrow : .plan plan ∈ (method n).rows := by simp [hmethod, Method.rows]
      exact wp_savePlan hrow (not_records (by rw [hmethod]; rfl)) h
  | load query => exact wp_seq (Through.kept.wp_load query h.through) fun _ _ hw => hw

end Methods

/-! ## Every run -/

/-- The outline of the coroutines that no transition is disturbed in. -/
def outline (method : Nat → Method) : Outline ((connection method).restrict (undisturbed method)) :=
  Outline.ofSteps (Step method) (fun n _ => Clear method n) (fun n _ => Through method n)
    (fun n _ => Through method n) (fun _ _ _ _ _ hne hstep h => h.step hne hstep)
    (fun _ _ _ _ _ hne hstep h => h.step hne hstep) (fun _ _ _ _ _ hne hstep h => h.step hne hstep)
    fun _ _ _ h => wp_seq (wp_program h) fun _ _ hw => hw

/-- No coroutine has begun. -/
abbrev start (method : Nat → Method) (opened : Tables) : Conf Nat Op Ret PyExn Unit Unit World :=
  (connection method).init (fun _ => ()) { opened }

theorem clear_start (opened : Tables) : Clear method n { opened } := by
  refine ⟨⟨?_, ?_, ?_, ?_, ?_⟩, ?_⟩
  · exact fun _ he => absurd he List.not_mem_nil
  · exact fun _ _ _ _ => iff_of_false List.not_mem_nil List.not_mem_nil
  · exact fun _ he => absurd he List.not_mem_nil
  · exact fun _ hrow => absurd hrow List.not_mem_nil
  · exact fun _ hrow => absurd hrow List.not_mem_nil
  · exact fun _ _ => List.not_mem_nil

/-- **Where no transition is disturbed**, every transition is on disk with its event or not at all, in every
state of every run, and no query has got a row that will not be committed. -/
theorem transitions_explained (method : Nat → Method) (opened : Tables)
    (c : Conf Nat Op Ret PyExn Unit Unit World)
    (hsteps : ((connection method).restrict (undisturbed method)).Steps (start method opened) c) :
    Atomic method c.world ∧ Faithful method c := by
  have hstart : (outline method).Holds
      (((connection method).restrict (undisturbed method)).init (fun _ => ()) { opened }) :=
    Outline.holds_init _ fun n => clear_start opened
  have hholds := Outline.holds_steps _ hstart hsteps
  have hsound : Sound method c.world := by
    refine Outline.world_steps (outline method) (P := Sound method) ?_ hstart (clear_start (n := 0) opened).sound hsteps
    exact fun _ _ _ _ _ hstep _ => hstep.sound
  refine ⟨hsound.atomic, fun row hrow => ?_⟩
  rcases hsound.read row (hsound.returned row hrow) with hopened | ⟨n, hwritten⟩ | ⟨n, hother, hrecords⟩
  · exact .inl hopened
  · rcases List.mem_append.mp hwritten with hcommitted | hpending
    · exact .inr (.inl ⟨n, hcommitted⟩)
    · refine .inr (.inr ⟨n, hsound.origin _ hwritten, fun hrecords => ⟨hpending, fun hover => ?_⟩⟩)
      have hthrough : Through method n c.world := by
        rcases hover with ⟨r, hreturned⟩ | ⟨exc, hraised⟩
        · exact Outline.post_of_ret _ hholds hreturned
        · exact Outline.fail_of_raise _ hholds hraised
      exact hthrough.through hrecords row hpending
  · exact .inr (.inr ⟨n, hother, fun hrecorded => absurd hrecorded hrecords⟩)

/-! ### Schedules -/

/-- Every `await` succeeds. -/
def answer : (o : Op) → World → Ret o
  | .release, _ => ()
  | .execute _, _ => ⟨true, .ok ()⟩
  | .query query, w => .ok (select query w.visible)
  | .fetch _ cursor, _ => .ok cursor
  | .acquire, _ | .commit, _ | .rollback, _ | .publish _, _ => .ok ()

/-- A statement is executed, and its `await` cancelled. -/
def cancel : (o : Op) → World → Ret o
  | .execute _, _ => ⟨true, .error .cancelledError⟩
  | o, w => answer o w

/-- A run that is RUNNING, and the event of its end. -/
def runningRun : Run :=
  { id := ⟨"run"⟩, projectId := "p", goalId := "g", goalRevision := "g", state := .running, createdAt := "now" }

def stopped : DomainEvent := ⟨"event", "now", "p", some ⟨"run"⟩, .stateChange, 1, .obj []⟩

/-- The first coroutine moves the run to CANCELLED, the second saves evidence, the third reads the run. -/
def methods : Nat → Method
  | 0 => .transition (.run runningRun .cancelled) stopped
  | 1 => .save (.evidence ⟨"g", .build, "command", .passed, "", none, none⟩)
  | _ => .load (.run ⟨"run"⟩)

/-- A query reads the run before its transition is committed. -/
def readAhead : Conf Nat Op Ret PyExn Unit Unit World :=
  ((connection methods).restrict (undisturbed methods)).play
    ((0, answer) :: (0, answer) :: List.replicate 2 (2, answer) ++ List.replicate 4 (0, answer))
    (start methods {})

theorem transitions_explained_readAhead : readAhead.world.returned.length = 1 ∧
    readAhead.world.committed.length = 2 ∧ Atomic methods readAhead.world ∧ Faithful methods readAhead := by
  refine ⟨by decide +kernel, by decide +kernel, transitions_explained methods {} readAhead ?_⟩
  exact System.play_steps _ _ _

/-- The transition is cancelled after its first statement, and the next coroutine commits. -/
def cutTransition : Conf Nat Op Ret PyExn Unit Unit World :=
  (connection methods).play
    ((0, answer) :: (0, cancel) :: (0, answer) :: List.replicate 4 (1, answer)) (start methods {})

/-- The run is stored CANCELLED, and no event says so. -/
theorem transition_without_event :
    (connection methods).Steps (start methods {}) cutTransition ∧
    cutTransition.world.stored.runs.map Run.state = [.cancelled] ∧ cutTransition.world.stored.events = [] ∧
    ¬Atomic methods cutTransition.world := by
  refine ⟨System.play_steps _ _ _, by decide +kernel, by decide +kernel, fun hatomic => ?_⟩
  have hiff := hatomic 0 _ _ rfl
  revert hiff
  decide +kernel

end AtlasFlow.Reference.Connection
