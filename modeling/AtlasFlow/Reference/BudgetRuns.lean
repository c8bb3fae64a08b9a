import Mathlib.Data.List.Infix
import AtlasFlow.Reference.Asides
import AtlasFlow.Reference.Outcomes

/-!
# The caps of a budget

Reserving an attempt and starting it are calls of one coroutine, and between them any of the others may
reserve too. Each party is watched with a count of the reservations it holds: it starts an attempt only
while it holds one, and nobody reserves before `execute` has set the budget, nor does it set it again.
-/

namespace AtlasFlow.Reference

open Concurrency
open Prog (Calls)

/-! ## What the steps of a run tell -/

/-- The party that starts an attempt. -/
def starts : Label Party Op Ret GoalRunner.Point → Option Party
  | .call party (.commitAttempt attempt _) _ => if attempt.state = .starting then some party else none
  | _ => none

/-- The party that asks for a reservation, and what it is refused for. -/
def reservation : Label Party Op Ret GoalRunner.Point → Option (Party × Option BudgetKind)
  | .call party .reserveAttempt (.ok _) => some (party, none)
  | .call party .reserveAttempt (.error e) => some (party, some e.kind)
  | _ => none

/-- For every attempt started, the party that started it. -/
def started (ls : List (Label Party Op Ret GoalRunner.Point)) : List Party := ls.filterMap starts

/-- The answers of `reserve_attempt`, in order. -/
def reservations (ls : List (Label Party Op Ret GoalRunner.Point)) : List (Party × Option BudgetKind) :=
  ls.filterMap reservation

/-- For every reservation granted, the party it was granted to. -/
def granted (ls : List (Label Party Op Ret GoalRunner.Point)) : List Party :=
  (reservations ls).filterMap fun answer => if answer.2 = none then some answer.1 else none

/-- A refusal because of attempts or tokens. -/
def Hard (answer : Party × Option BudgetKind) : Prop := answer.2 = some .attempts ∨ answer.2 = some .tokens

/-- The caps hold: no more attempts are started than there may be, and at any moment nobody has started
more than were reserved for it. -/
structure Capped (ls : List (Label Party Op Ret GoalRunner.Point)) (w : World) : Prop where
  cap : (started ls).length ≤ w.budget.maxAttempts
  reserved : ∀ ls₁, ls₁ <+: ls → ∀ party, (started ls₁).count party ≤ (granted ls₁).count party

/-- A refusal because of attempts or tokens is final. -/
def Final (ls : List (Label Party Op Ret GoalRunner.Point)) : Prop :=
  (reservations ls).Pairwise fun earlier later => Hard earlier → later.2 ≠ none

section Append

variable {ls : List (Label Party Op Ret GoalRunner.Point)} {l : Label Party Op Ret GoalRunner.Point}

@[simp] theorem started_append : started (ls ++ [l]) = started ls ++ (starts l).toList := by
  cases h : starts l <;> simp [started, h]

@[simp] theorem reservations_append : reservations (ls ++ [l]) = reservations ls ++ (reservation l).toList := by
  cases h : reservation l <;> simp [reservations, h]

theorem granted_append {party : Party} (h : reservation l = some (party, none)) :
    granted (ls ++ [l]) = granted ls ++ [party] := by
  simp [granted, h]

theorem granted_append_some {party : Party} {kind : BudgetKind} (h : reservation l = some (party, some kind)) :
    granted (ls ++ [l]) = granted ls := by
  simp [granted, h]

theorem granted_append_none (h : reservation l = none) : granted (ls ++ [l]) = granted ls := by
  simp [granted, h]

end Append

/-! ## What a party holds -/

/-- The reservations a party holds whose attempts have not started; and whether a coroutine has begun, or
`execute` has set the budget. -/
structure Hand where
  held : Nat := 0
  ready : Bool := false

/-- A party is dealt a reservation when it is granted one, and plays it when it starts an attempt. -/
def hand (party : Party) : Monitor Op Ret Hand where
  next
    | .reserveAttempt, v, .ok _ => { v with held := v.held + 1 }
    | .commitAttempt attempt _, v, _ => if attempt.state = .starting then { v with held := v.held - 1 } else v
    | .setBudget _, v, _ => { v with ready := true }
    | .begin, v, _ => { v with ready := true }
    | _, v, _ => v
  allows
    | .setBudget ledger, v => party = .execute ∧ v.ready = false ∧ ledger.attempts = 0
    | .reserveAttempt, v => v.ready = true
    | .gather .., v => v.ready = true
    | .commitAttempt attempt _, v => attempt.state = .starting → 0 < v.held
    | _, _ => True

theorem hand_ignores (party : Party) (o : Op) (ho : o.Aside) : (hand party).Ignores o := by
  intro v
  cases o <;> first | exact ⟨trivial, fun _ => rfl⟩ | exact absurd ho id

/-- A program that a party may run once it is ready, whatever it holds. -/
def Steady {α : Type} (party : Party) (p : Program α) : Prop :=
  ∀ v, v.ready = true → wp (hand party).contract p (fun _ v => v.ready = true) (fun _ v => v.ready = true) v

namespace Steady

variable {α β : Type} {party : Party} {p : Program α} {v : Hand}

theorem of_calls (hp : p.Calls Op.Aside) : Steady party p := by
  intro v hv
  refine wp_mono (Monitor.wp_calls (hp.mono (hand_ignores party)) v) ?_ ?_
  · rintro _ _ rfl
    exact hv
  · rintro _ _ rfl
    exact hv

theorem ret (a : α) : Steady party (.ret a) := fun _ hv => hv

theorem raise (e : PyExn) : Steady party (.raise e : Program α) := fun _ hv => hv

theorem bind {f : α → Program β} (hp : Steady party p) (hf : ∀ a, Steady party (f a)) : Steady party (p.bind f) :=
  fun v hv => wp_bind.mpr (wp_mono (hp v hv) (fun a v hv => hf a v hv) fun _ _ hv => hv)

theorem handle {h : PyExn → Program α} (hp : Steady party p) (hh : ∀ e, Steady party (h e)) :
    Steady party (p.handle h) :=
  fun v hv => wp_handle.mpr (wp_mono (hp v hv) (fun _ _ hv => hv) fun e v hv => hh e v hv)

/-- A call that changes nothing in a party's hand. -/
theorem call {o : Op} {k : Ret o → Program α} (hallows : ∀ v : Hand, v.ready = true → (hand party).allows o v)
    (hready : ∀ (v : Hand) r, v.ready = true → ((hand party).next o v r).ready = true)
    (hk : ∀ r, Steady party (k r)) : Steady party (.call o k) :=
  fun v hv => Monitor.wp_call (hallows v hv) fun r => hk r _ (hready v r hv)

end Steady

/-! ## Attempts -/

section Attempts

variable {party : Party} {v : Hand}

/-- A party that starts an attempt has to hold a reservation. -/
theorem Hand.wp_moveAttempt {projectId : String} {attempt : Attempt} {toState : AttemptState} {type : EventType}
    (hv : v.ready = true) (hheld : toState = .starting → 0 < v.held) :
    wp (hand party).contract (Harness.moveAttempt projectId attempt toState type) (fun _ v => v.ready = true)
      (fun _ v => v.ready = true) v := by
  unfold Harness.moveAttempt
  refine Monitor.wp_calls_bind ((newEvent_calls ..).mono (hand_ignores party)) (fun _ => hv) fun event => ?_
  refine Monitor.wp_calls_bind ((Persistence.guard_calls ..).mono (hand_ignores party)) (fun _ => hv) fun _ => ?_
  refine Monitor.wp_call hheld fun _ => Monitor.wp_call trivial fun _ => ?_
  show Hand.ready (if toState = .starting then _ else _) = true
  split <;> exact hv

theorem Steady.moveAttempt (projectId : String) (attempt : Attempt) {toState : AttemptState} (type : EventType)
    (hstate : toState ≠ .starting) : Steady party (Harness.moveAttempt projectId attempt toState type) :=
  fun _ hv => Hand.wp_moveAttempt hv fun h => absurd h hstate

theorem Steady.closeAttempt (projectId : String) (attempt : Attempt) {state : AttemptState} (type : EventType)
    (error : String) (hstate : state ≠ .starting) :
    Steady party (Harness.closeAttempt projectId attempt state type error) :=
  .call (fun _ _ => trivial) (fun _ _ hv => hv) fun _ => .moveAttempt _ _ _ hstate

theorem Steady.endAttempt (projectId : String) (taskId : TaskId) (attempt : Attempt)
    (answer : Except PyExn RunnerResult) : Steady party (Harness.endAttempt projectId taskId attempt answer) := by
  unfold Harness.endAttempt
  split
  · exact .call (fun _ _ => trivial) (fun _ _ hv => hv) fun _ =>
      (Steady.closeAttempt _ _ _ _ (by decide)).bind fun _ => .raise _
  · exact (Steady.closeAttempt _ _ _ _ (by decide)).bind fun _ => .ret _
  · split
    · exact (Steady.closeAttempt _ _ _ _ (by decide)).bind fun _ => .ret _
    · exact (Steady.closeAttempt _ _ _ _ (by decide)).bind fun _ => .ret _

/-- A party may call the harness while it holds a reservation. -/
theorem Hand.wp_execute {projectId runnerName prompt : String} {task : Task} {config : RunnerConfig}
    (hv : v.ready = true) (hheld : 0 < v.held) :
    wp (hand party).contract (Harness.execute projectId runnerName task prompt config) (fun _ v => v.ready = true)
      (fun _ v => v.ready = true) v := by
  unfold Harness.execute
  refine Monitor.wp_call trivial fun resolved => ?_
  simp only [Prog.ret_bind]
  split
  · refine wp_seq (M := fun _ v => v.ready = true) ?_ fun attempt v hv => ?_
    · unfold Harness.startAttempt
      refine Monitor.wp_call trivial fun made => Monitor.wp_call trivial fun _ => ?_
      simp only [Prog.ret_bind]
      refine wp_seq (Hand.wp_moveAttempt hv fun _ => hheld) fun attempt v hv => ?_
      exact Monitor.wp_call trivial fun startedAt => Hand.wp_moveAttempt hv nofun
    · have hrest : Steady party (Prog.call (.startRunner task.id prompt config) fun _ =>
          Prog.call (.awaitRunner task.id) fun answer => Harness.endAttempt projectId task.id attempt answer) :=
        .call (fun _ _ => trivial) (fun _ _ hv => hv) fun _ =>
          .call (fun _ _ => trivial) (fun _ _ hv => hv) fun answer => .endAttempt _ _ _ answer
      split
      · refine Steady.bind (.of_calls (newEvent_calls ..)) (fun event => ?_) v hv
        exact Steady.bind (.of_calls (Persistence.recordTaskTransition_calls ..)) fun _ => hrest
      · exact hrest v hv
  · exact hv

variable (g : GoalRunner)

theorem Steady.reserve {α : Type} {k : Except BudgetExceeded Unit → Program α} (hrefused : ∀ e, Steady party (k (.error e)))
    (hgranted : ∀ v, v.ready = true → 0 < v.held →
      wp (hand party).contract (k (.ok ())) (fun _ v => v.ready = true) (fun _ v => v.ready = true) v) :
    Steady party (.call .reserveAttempt k) := by
  refine fun v hv => Monitor.wp_call hv fun answer => ?_
  cases answer with
  | error e => exact hrefused e v hv
  | ok _ => exact hgranted { v with held := v.held + 1 } hv (Nat.succ_pos _)

theorem Hand.wp_attempt {run : Run} {task : Task} {node : TaskNode} {modelId : String} (hv : v.ready = true)
    (hheld : 0 < v.held) :
    wp (hand party).contract (g.attempt run task node modelId) (fun _ v => v.ready = true)
      (fun _ v => v.ready = true) v := by
  unfold GoalRunner.attempt
  refine wp_handle.mpr (wp_bind.mpr (wp_mono (Hand.wp_execute hv hheld) (fun _ _ hv => hv) fun e v hv => ?_))
  refine Steady.of_calls ?_ v hv
  split
  · refine ⟨trivial, fun requested => ?_⟩
    simp only [Prog.ret_bind]
    split
    · exact ⟨trivial, fun _ => trivial⟩
    · trivial
  · trivial

theorem Steady.tryCandidates (run : Run) (node : TaskNode) (limit : Nat) (candidates : List (Option ModelEntry))
    (index : Nat) (task : Task) (tried : GoalRunner.Tried) :
    Steady party (g.tryCandidates run node limit candidates index task tried) := by
  induction candidates generalizing index task tried with
  | nil => exact .ret _
  | cons candidate rest ih =>
      obtain ⟨last, outcome⟩ := tried
      refine .reserve (fun e => .ret _) fun v hv hheld => ?_
      simp only [Prog.ret_bind]
      refine wp_seq (Hand.wp_attempt g hv hheld) fun answer v hv => ?_
      cases answer with
      | error reason => exact hv
      | ok answered =>
          obtain ⟨result, attempt⟩ := answered
          refine Steady.bind (.of_calls (g.observe_calls ..)) (fun _ => ?_) v hv
          split
          · exact .ret _
          · refine Steady.bind (.of_calls (reload_calls _)) fun task => ?_
            split
            · exact Steady.bind (.of_calls (Scheduler.moveTask_calls ..)) fun task => ih _ task _
            · exact ih _ task _

theorem Steady.crossProviderReview (run : Run) (task : Task) (node : TaskNode) (outcome : TaskOutcome)
    (worktree : Option Worktree) : Steady party (g.crossProviderReview run task node outcome worktree) := by
  unfold GoalRunner.crossProviderReview
  split
  · exact (Steady.of_calls (recordGate_calls ..)).bind fun _ => .ret _
  · refine .reserve (fun e => ?_) fun v hv hheld => ?_
    · exact (Steady.of_calls (recordGate_calls ..)).bind fun _ => .ret _
    · simp only [Prog.ret_bind]
      refine wp_seq (Hand.wp_execute hv hheld) fun answered v hv => ?_
      refine Steady.bind (.of_calls (g.observe_calls ..)) (fun _ => ?_) v hv
      exact (Steady.of_calls (recordGate_calls ..)).bind fun _ => .ret _

theorem Steady.acceptTask (run : Run) (task : Task) (node : TaskNode) (outcome : TaskOutcome)
    (worktree : Option Worktree) (attempt : Attempt) :
    Steady party (g.acceptTask run task node outcome worktree attempt) := by
  unfold GoalRunner.acceptTask
  split
  · refine (Steady.crossProviderReview g run task node outcome worktree).bind fun reviewed => ?_
    obtain ⟨accepted, outcome⟩ := reviewed
    dsimp only
    split
    · exact .of_calls (g.mergeTask_calls ..)
    · exact (Steady.of_calls (Scheduler.moveTask_calls ..)).bind fun _ => .ret _
  · exact .of_calls (g.mergeTask_calls ..)

theorem Steady.concludeTask (run : Run) (task : Task) (node : TaskNode) (worktree : Option Worktree)
    (tried : GoalRunner.Tried) : Steady party (g.concludeTask run task node worktree tried) := by
  obtain ⟨last, outcome⟩ := tried
  refine (Steady.of_calls (reload_calls _)).bind fun task => ?_
  split
  · split
    · exact (Steady.of_calls (Scheduler.moveTask_calls ..)).bind fun _ => .ret _
    · exact .ret _
  · split
    · exact .of_calls (g.stopTask_calls ..)
    · split
      · exact .acceptTask g run task node outcome worktree _
      · exact .of_calls (g.failBuild_calls ..)

theorem Steady.runTask (run : Run) (entry : Entry) : Steady party (g.runTask run entry) := by
  obtain ⟨task, node⟩ := entry
  refine .call (fun _ _ => trivial) (fun _ _ hv => hv) fun requested => ?_
  simp only [Prog.ret_bind]
  split
  · exact .ret _
  · have hrest : Steady party (do
        let ready ← Scheduler.markTaskReady g.projectId task
        let worktree ← g.isolate run ready node
        let tried ← g.attemptWithFallback run ready node (g.router.route (roleFor node))
          { taskId := task.id, objective := task.objective, worktree }
        g.concludeTask run ready node worktree tried) :=
      (Steady.of_calls (Scheduler.moveTask_calls ..)).bind fun ready =>
        (Steady.of_calls (g.isolate_calls ..)).bind fun worktree =>
          (Steady.tryCandidates g run node _ _ _ ready _).bind fun tried => .concludeTask g run ready node worktree tried
    split
    · exact .call (fun _ _ => trivial) (fun _ _ hv => hv) fun _ => hrest
    · exact hrest

/-! ## The parties -/

theorem Steady.gatherBatches (run : Run) (batches : List (List Entry)) (outcomes : List TaskOutcome) :
    Steady party (GoalRunner.gatherBatches run batches outcomes) := by
  induction batches generalizing outcomes with
  | nil => exact .ret _
  | cons batch rest ih =>
      refine Steady.bind ?_ fun results => ih _
      refine .call (fun _ hv => hv) (fun _ _ hv => hv) fun first => ?_
      exact .of_calls ⟨trivial, fun joined => Prog.calls_ofExcept _⟩

/-- Where a party may start again: `execute` has set the budget before its loop. -/
def HandPre : Party → GoalRunner.Point → Hand → Prop
  | .execute, .start, v => v.ready = false
  | .execute, .pass .., v => v.ready = true
  | _, _, _ => True

/-- A round of `execute` ends with a report, or ready for the next round. -/
def HandNext : GoalRunner.Point ⊕ GoalRunner.Report → Hand → Prop
  | .inl point, v => HandPre .execute point v
  | .inr _, _ => True

theorem hand_pass (run : Run) (nodes : Dict TaskId TaskNode) (outcomes : List TaskOutcome) (hv : v.ready = true) :
    wp (hand .execute).contract (g.pass run nodes outcomes) HandNext (fun _ _ => True) v := by
  have hafter : ∀ v : Hand, ∀ outcomes,
      wp (hand .execute).contract (g.afterLoop run outcomes) HandNext (fun _ _ => True) v := by
    intro v outcomes
    unfold GoalRunner.afterLoop
    refine Monitor.wp_call trivial fun requested => ?_
    simp only [Prog.ret_bind]
    split
    · exact Monitor.wp_calls_bind ((g.stopRun_calls ..).mono (hand_ignores _)) (fun _ => trivial) fun _ => trivial
    · exact Monitor.wp_calls_bind ((g.settleRun_calls ..).mono (hand_ignores _)) (fun _ => trivial) fun _ => trivial
  unfold GoalRunner.pass
  refine Monitor.wp_call trivial fun requested => ?_
  simp only [Prog.ret_bind]
  split
  · exact hafter _ outcomes
  refine Monitor.wp_call trivial fun tasks => ?_
  simp only [Prog.ret_bind, Prog.bind_eq, Prog.pure_eq]
  split
  · exact hafter _ outcomes
  refine Monitor.wp_calls_bind (Prog.calls_ofExcept _) (fun _ => trivial) fun entries => ?_
  refine wp_bind.mpr (wp_mono (Steady.gatherBatches run _ outcomes v hv) (fun outcomes v hv => ?_) fun _ _ _ => trivial)
  split
  · exact hafter v outcomes
  · exact hv

theorem hand_start (plan : Plan) (gen : Generated) (hv : v.ready = false) :
    wp (hand .execute).contract (g.start plan gen) HandNext (fun _ _ => True) v := by
  unfold GoalRunner.start
  dsimp only
  split
  · trivial
  refine Monitor.wp_call trivial fun _ => ?_
  simp only [Prog.ret_bind, Prog.bind_eq]
  refine Monitor.wp_calls_bind ((Scheduler.moveRun_calls ..).mono (hand_ignores _)) (fun _ => trivial) fun run => ?_
  refine Monitor.wp_calls_bind (Prog.calls_ofExcept _) (fun _ => trivial) fun made => ?_
  refine Monitor.wp_call ⟨rfl, hv, rfl⟩ fun _ => ?_
  simp only [Prog.ret_bind]
  refine Monitor.wp_calls_bind ((Scheduler.scheduleTasks_calls ..).mono (hand_ignores _)) (fun _ => trivial) fun run => ?_
  refine Monitor.wp_calls_bind ((Scheduler.moveRun_calls ..).mono (hand_ignores _)) (fun _ => trivial) fun run => ?_
  exact rfl

theorem hand_coroutine : wp (hand party).contract g.coroutine (fun _ _ => True) (fun _ _ => True) v := by
  unfold GoalRunner.coroutine
  refine Monitor.wp_call trivial fun begun => ?_
  simp only [Prog.ret_bind, Prog.bind_eq, Prog.tryCatch_eq]
  refine wp_mono (Steady.bind (Steady.handle ?_ fun e => .ret _) (fun result => ?_) _ rfl) (fun _ _ _ => trivial)
    fun _ _ _ => trivial
  · exact Steady.bind (.runTask g _ _) fun _ => .ret _
  · exact .of_calls ⟨trivial, fun _ => trivial⟩

/-- **Every party keeps to its hand.** -/
theorem hand_code (plan : Plan) (gen : Generated) (i : Party) (point : GoalRunner.Point) (v : Hand)
    (h : HandPre i point v) :
    wp (hand i).contract ((system g plan gen).code i point) (System.Resumes (HandPre i)) (fun _ _ => True) v := by
  cases i with
  | execute =>
      have hround : wp (hand .execute).contract (g.execute plan gen point) HandNext (fun _ _ => True) v := by
        cases point with
        | start => exact hand_start g plan gen h
        | pass run nodes outcomes => exact hand_pass g run nodes outcomes h
      apply wp_seq hround
      intro next v hnext
      cases next with
      | inl point' => exact hnext
      | inr report => trivial
  | coroutine n => exact wp_seq (hand_coroutine g) fun _ _ _ => trivial
  | cancelRun n =>
      exact Monitor.wp_calls_bind ((cancelRunRoute_calls _).mono (hand_ignores _)) (fun _ => trivial) fun _ => trivial

end Attempts

/-! ## What the hands add up to -/

/-- A call that changes neither the budget nor the number of coroutines. -/
def Op.Spares : Op → Prop
  | .setBudget _ | .reserveAttempt | .recordUsage _ | .gather .. => False
  | _ => True

@[simp] theorem World.note_budget (w : World) (party : Party) (f : TaskId → Ledger → Ledger) :
    (w.note party f).budget = w.budget := by
  unfold World.note
  split <;> rfl

@[simp] theorem World.note_coroutines (w : World) (party : Party) (f : TaskId → Ledger → Ledger) :
    (w.note party f).coroutines = w.coroutines := by
  unfold World.note
  split <;> rfl

@[simp] theorem World.outside_budget {α : Type} (w : World) (party : Party) (call : Outside) (r : Except PyExn α) :
    (w.outside party call r).budget = w.budget := by
  unfold World.outside
  split <;> simp

@[simp] theorem World.outside_coroutines {α : Type} (w : World) (party : Party) (call : Outside)
    (r : Except PyExn α) : (w.outside party call r).coroutines = w.coroutines := by
  unfold World.outside
  split <;> simp

section Hands

variable {g : GoalRunner} {ls : List (Label Party Op Ret GoalRunner.Point)} {v : Party → Hand} {w w' : World}
  {i : Party} {o : Op} {r : Ret o}

theorem exec_spares (h : exec g i o w r = some w') (ho : o.Spares) :
    w'.budget = w.budget ∧ w'.coroutines.length = w.coroutines.length := by
  unfold exec at h
  split at h
  all_goals first | exact absurd ho id | skip
  all_goals (try dsimp only at h)
  all_goals repeat' split at h
  all_goals cases h
  all_goals first | exact ⟨rfl, rfl⟩ | simp [World.finish]

/-- What the steps so far, the hands and the world have to do with each other. -/
structure Dealt (ls : List (Label Party Op Ret GoalRunner.Point)) (v : Party → Hand) (w : World) : Prop where
  opened : ∀ i, (v i).ready = true → (v .execute).ready = true
  gathered : w.coroutines.length ≠ 0 → (v .execute).ready = true
  unasked : (v .execute).ready = false → reservations ls = []
  spent : (v .execute).ready = true →
    (granted ls).length = w.budget.attempts ∧ w.budget.attempts ≤ w.budget.maxAttempts
  held : ∀ i, (started ls).count i + (v i).held = (granted ls).count i
  reserved : ∀ ls₁, ls₁ <+: ls → ∀ i, (started ls₁).count i ≤ (granted ls₁).count i

theorem Dealt.reserved_append (h : Dealt ls v w) {l : Label Party Op Ret GoalRunner.Point}
    (hheld : ∀ j, ∃ n, (started (ls ++ [l])).count j + n = (granted (ls ++ [l])).count j) (ls₁)
    (hls : ls₁ <+: ls ++ [l]) (j : Party) : (started ls₁).count j ≤ (granted ls₁).count j := by
  rcases List.prefix_concat_iff.mp hls with rfl | hold
  · obtain ⟨n, hn⟩ := hheld j
    exact Nat.le.intro hn
  · exact h.reserved ls₁ hold j

/-- One more step of party `i`, after which its hand is `x` and `execute` is as ready as before. -/
theorem Dealt.extend (h : Dealt ls v w) {l : Label Party Op Ret GoalRunner.Point} {x : Hand}
    (hready : x.ready = (v i).ready ∨ x.ready = true ∧ (v .execute).ready = true)
    (hcoroutines : w'.coroutines.length ≠ 0 → w.coroutines.length ≠ 0 ∨ (v .execute).ready = true)
    (hunasked : (v .execute).ready = false → reservation l = none)
    (hspent : (v .execute).ready = true →
      (granted (ls ++ [l])).length = w'.budget.attempts ∧ w'.budget.attempts ≤ w'.budget.maxAttempts)
    (hheld : ∀ j, (started (ls ++ [l])).count j + (Function.update v i x j).held = (granted (ls ++ [l])).count j) :
    Dealt (ls ++ [l]) (Function.update v i x) w' := by
  have hexecute : (Function.update v i x .execute).ready = (v .execute).ready := by
    by_cases hi : .execute = i
    · subst hi
      rw [Function.update_self]
      rcases hready with hsame | ⟨hx, hopen⟩
      · exact hsame
      · rw [hx, hopen]
    · rw [Function.update_of_ne hi]
  refine ⟨fun j hj => ?_, fun hne => ?_, fun hnot => ?_, fun hopen => ?_, hheld,
    h.reserved_append fun j => ⟨_, hheld j⟩⟩
  · rw [hexecute]
    by_cases hji : j = i
    · subst hji
      rw [Function.update_self] at hj
      rcases hready with hsame | ⟨_, hopen⟩
      · exact h.opened j (hsame.symm.trans hj)
      · exact hopen
    · rw [Function.update_of_ne hji] at hj
      exact h.opened j hj
  · rw [hexecute]
    exact (hcoroutines hne).elim h.gathered id
  · rw [hexecute] at hnot
    rw [reservations_append, hunasked hnot, h.unasked hnot]
    rfl
  · rw [hexecute] at hopen
    exact hspent hopen

/-- One more step that neither answers a reservation nor starts an attempt, nor sets the budget. -/
theorem Dealt.quiet (h : Dealt ls v w) {l : Label Party Op Ret GoalRunner.Point} {x : Hand}
    (hstarts : starts l = none) (hreservation : reservation l = none) (hheld : x.held = (v i).held)
    (hready : x.ready = (v i).ready ∨ x.ready = true ∧ (v .execute).ready = true)
    (hcoroutines : w'.coroutines.length ≠ 0 → w.coroutines.length ≠ 0 ∨ (v .execute).ready = true)
    (hattempts : w'.budget.attempts = w.budget.attempts) (hmax : w'.budget.maxAttempts = w.budget.maxAttempts) :
    Dealt (ls ++ [l]) (Function.update v i x) w' := by
  refine h.extend hready hcoroutines (fun _ => hreservation) (fun hopen => ?_) (fun j => ?_)
  · rw [granted_append_none hreservation, hattempts, hmax]
    exact h.spent hopen
  · have hsame : (Function.update v i x j).held = (v j).held := by
      by_cases hji : j = i
      · rw [hji, Function.update_self, hheld]
      · rw [Function.update_of_ne hji]
    rw [granted_append_none hreservation, started_append, hstarts, hsame]
    simpa using h.held j

/-- `execute` sets the budget of the run. -/
theorem Dealt.setBudget (h : Dealt ls v w) (hnot : (v .execute).ready = false) {ledger : BudgetLedger}
    (hfresh : ledger.attempts = 0) (r : Ret (.setBudget ledger)) :
    Dealt (ls ++ [.call .execute (.setBudget ledger) r])
      (Function.update v .execute { v .execute with ready := true }) { w with budget := ledger } := by
  have hnone : reservation (.call .execute (.setBudget ledger) r) = none := rfl
  have hheld : ∀ j, (started (ls ++ [.call .execute (.setBudget ledger) r])).count j +
      (Function.update v .execute { v .execute with ready := true } j).held =
        (granted (ls ++ [.call .execute (.setBudget ledger) r])).count j := by
    intro j
    have hsame : (Function.update v .execute { v .execute with ready := true } j).held = (v j).held := by
      by_cases hj : j = .execute
      · rw [hj, Function.update_self]
      · rw [Function.update_of_ne hj]
    rw [granted_append_none hnone, started_append, hsame]
    simpa [starts] using h.held j
  refine ⟨fun _ _ => ?_, fun _ => ?_, fun hopen => ?_, fun _ => ?_, hheld,
    h.reserved_append fun j => ⟨_, hheld j⟩⟩
  · rw [Function.update_self]
  · rw [Function.update_self]
  · rw [Function.update_self] at hopen
    cases hopen
  · rw [granted_append_none hnone, granted, h.unasked hnot]
    exact ⟨hfresh.symm, hfresh ▸ Nat.zero_le _⟩

/-- A check that passed left room for an attempt. -/
theorem BudgetLedger.attempts_lt {b : BudgetLedger} (h : b.checkCanStartAttempt = .ok ()) :
    b.attempts < b.maxAttempts := by
  unfold checkCanStartAttempt at h
  split at h
  · cases h
  · omega

/-- A reservation is granted. -/
theorem Dealt.grant (h : Dealt ls v w) (hi : (v i).ready = true) (hcheck : w.budget.checkCanStartAttempt = .ok ())
    (hattempts : w'.budget.attempts = w.budget.attempts + 1)
    (hmax : w'.budget.maxAttempts = w.budget.maxAttempts) :
    Dealt (ls ++ [.call i .reserveAttempt (.ok ())])
      (Function.update v i { v i with held := (v i).held + 1 }) w' := by
  have hopen := h.opened i hi
  have hgranted : granted (ls ++ [.call i .reserveAttempt (.ok ())]) = granted ls ++ [i] :=
    granted_append rfl
  refine h.extend (.inl rfl) (fun _ => .inr hopen) (fun hnot => ?_) (fun _ => ?_) (fun j => ?_)
  · rw [hopen] at hnot
    cases hnot
  · have hspent := h.spent hopen
    have hlt := BudgetLedger.attempts_lt hcheck
    rw [hgranted, List.length_append, List.length_singleton]
    omega
  · have hheld := h.held j
    rw [hgranted, started_append, List.count_append]
    by_cases hji : j = i
    · subst hji
      simp [starts]
      omega
    · rw [Function.update_of_ne hji]
      simp [starts, Ne.symm hji]
      omega

/-- A reservation is refused. -/
theorem Dealt.refuse (h : Dealt ls v w) (hi : (v i).ready = true) (e : BudgetExceeded)
    (hbudget : w'.budget = w.budget) :
    Dealt (ls ++ [.call i .reserveAttempt (.error e)]) (Function.update v i (v i)) w' := by
  have hopen := h.opened i hi
  have hgranted : granted (ls ++ [.call i .reserveAttempt (.error e)]) = granted ls := granted_append_some rfl
  refine h.extend (.inl rfl) (fun _ => .inr hopen) (fun hnot => ?_) (fun _ => ?_) (fun j => ?_)
  · rw [hopen] at hnot
    cases hnot
  · rw [hgranted, hbudget]
    exact h.spent hopen
  · rw [hgranted, started_append, Function.update_eq_self]
    simpa [starts] using h.held j

/-- An attempt is started, for a reservation that is held. -/
theorem Dealt.start (h : Dealt ls v w) (hheld : 0 < (v i).held) {attempt : Attempt} {event : DomainEvent}
    (hstarting : attempt.state = .starting) (r : Ret (.commitAttempt attempt event))
    (hbudget : w'.budget = w.budget) (hcoroutines : w'.coroutines.length = w.coroutines.length) :
    Dealt (ls ++ [.call i (.commitAttempt attempt event) r])
      (Function.update v i { v i with held := (v i).held - 1 }) w' := by
  have hnone : reservation (.call i (.commitAttempt attempt event) r) = none := rfl
  have hstarts : starts (.call i (.commitAttempt attempt event) r) = some i := if_pos hstarting
  refine h.extend (.inl rfl) (fun hne => .inl (hcoroutines ▸ hne)) (fun _ => hnone) (fun hopen => ?_) (fun j => ?_)
  · rw [granted_append_none hnone, hbudget]
    exact h.spent hopen
  · have hsum := h.held j
    rw [granted_append_none hnone, started_append, hstarts, List.count_append]
    by_cases hji : j = i
    · subst hji
      simp
      omega
    · rw [Function.update_of_ne hji]
      simp [Ne.symm hji]
      omega

/-- **One call keeps the sums right.** -/
theorem Dealt.call (h : Dealt ls v w) (hallows : (hand i).allows o (v i)) (hexec : exec g i o w r = some w') :
    Dealt (ls ++ [.call i o r]) (Function.update v i ((hand i).next o (v i) r)) w' := by
  by_cases hspares : o.Spares
  · obtain ⟨hbudget, hcoroutines⟩ := exec_spares hexec hspares
    have hne : w'.coroutines.length ≠ 0 → w.coroutines.length ≠ 0 ∨ (v .execute).ready = true :=
      fun hne => .inl (hcoroutines ▸ hne)
    cases o with
    | «begin» =>
        cases i with
        | coroutine n =>
            simp only [exec] at hexec
            split at hexec
            · next c hc =>
                have hlt := (List.getElem?_eq_some_iff.mp hc).1
                refine h.quiet rfl rfl rfl (.inr ⟨rfl, h.gathered (by omega)⟩) hne ?_ ?_ <;> rw [hbudget]
            · cases hexec
        | execute => cases hexec
        | cancelRun n => cases hexec
    | commitAttempt attempt event =>
        by_cases hstarting : attempt.state = .starting
        · have hnext : (hand i).next (.commitAttempt attempt event) (v i) r =
              { v i with held := (v i).held - 1 } := if_pos hstarting
          rw [hnext]
          exact h.start (hallows hstarting) hstarting r hbudget hcoroutines
        · have hnext : (hand i).next (.commitAttempt attempt event) (v i) r = v i := if_neg hstarting
          rw [hnext]
          refine h.quiet (if_neg hstarting) rfl rfl (.inl rfl) hne ?_ ?_ <;> rw [hbudget]
    | setBudget ledger => exact absurd hspares id
    | reserveAttempt => exact absurd hspares id
    | recordUsage usage => exact absurd hspares id
    | gather run batch => exact absurd hspares id
    | _ => refine h.quiet rfl rfl rfl (.inl rfl) hne ?_ ?_ <;> rw [hbudget]
  · cases o with
    | setBudget ledger =>
        cases hexec
        obtain ⟨rfl, hnot, hfresh⟩ := hallows
        exact h.setBudget hnot hfresh r
    | reserveAttempt =>
        simp only [exec, BudgetLedger.reserveAttempt] at hexec
        cases hcheck : w.budget.checkCanStartAttempt with
        | ok _ =>
            simp only [hcheck] at hexec
            cases r with
            | ok _ =>
                cases hexec
                exact h.grant hallows hcheck (by simp) (by simp)
            | error e => cases hexec
        | error e =>
            simp only [hcheck] at hexec
            cases r with
            | ok _ => cases hexec
            | error e' =>
                simp only at hexec
                split at hexec
                · cases hexec
                  exact h.refuse hallows e' (by simp)
                · cases hexec
    | recordUsage usage =>
        cases hexec
        refine h.quiet rfl rfl rfl (.inl rfl) (fun hne => .inl hne) ?_ ?_
        · show (w.budget.record usage).attempts = _
          unfold BudgetLedger.record
          split <;> rfl
        · show (w.budget.record usage).maxAttempts = _
          unfold BudgetLedger.record
          split <;> rfl
    | gather run batch =>
        simp only [exec] at hexec
        split at hexec
        · cases hexec
          exact h.quiet rfl rfl rfl (.inl rfl) (fun _ => .inr (h.opened i hallows)) rfl rfl
        · cases hexec
    | _ => exact absurd trivial hspares

/-! ## Refusals -/

/-- The attempts or the tokens are spent. -/
def BudgetLedger.Spent (b : BudgetLedger) : Prop :=
  b.maxAttempts ≤ b.attempts ∨ b.maxTokens ≠ 0 ∧ b.maxTokens ≤ b.tokens

theorem BudgetLedger.not_spent {b : BudgetLedger} (h : b.checkCanStartAttempt = .ok ()) : ¬b.Spent := by
  unfold checkCanStartAttempt at h
  split at h
  · cases h
  · next hattempts =>
      split at h
      · cases h
      · next htokens => exact fun hspent => hspent.elim hattempts htokens

theorem BudgetLedger.spent_of_refused {b : BudgetLedger} {e : BudgetExceeded} (h : b.checkCanStartAttempt = .error e)
    (hkind : e.kind = .attempts ∨ e.kind = .tokens) : b.Spent := by
  unfold checkCanStartAttempt at h
  split at h
  · next hattempts => exact .inl hattempts
  · split at h
    · next htokens => exact .inr htokens
    · split at h
      · cases h
        rcases hkind with hkind | hkind <;> cases hkind
      · cases h

theorem BudgetLedger.Spent.record {b : BudgetLedger} (h : b.Spent) {usage : Usage} (husage : 0 ≤ usage.tokens) :
    (b.record usage).Spent := by
  unfold BudgetLedger.record
  split
  · rcases h with hattempts | ⟨hcap, htokens⟩
    · exact .inl hattempts
    · exact .inr ⟨hcap, by dsimp only; omega⟩
  · exact h

/-- The tokens that a recorded usage reports. -/
def reported : Label Party Op Ret GoalRunner.Point → Option Int
  | .call _ (.recordUsage usage) _ => some usage.tokens
  | _ => none

/-- No recorded usage reports a negative number of tokens. -/
def Measured (ls : List (Label Party Op Ret GoalRunner.Point)) : Prop :=
  ∀ tokens ∈ ls.filterMap reported, 0 ≤ tokens

/-- What was once refused for attempts or tokens is spent. -/
structure Lasting (ls : List (Label Party Op Ret GoalRunner.Point)) (w : World) : Prop where
  spent : ∀ answer ∈ reservations ls, Hard answer → w.budget.Spent
  final : Final ls

theorem Measured.init {l : Label Party Op Ret GoalRunner.Point} (h : Measured (ls ++ [l])) : Measured ls :=
  fun tokens hmem => h tokens (by rw [List.filterMap_append]; exact List.mem_append_left _ hmem)

/-- One more step that answers no reservation. -/
theorem Lasting.quiet (h : Lasting ls w) {l : Label Party Op Ret GoalRunner.Point} (hl : reservation l = none)
    (hspent : w.budget.Spent → w'.budget.Spent) : Lasting (ls ++ [l]) w' := by
  constructor
  · intro answer hmem hard
    rw [reservations_append, hl] at hmem
    exact hspent (h.spent answer (by simpa using hmem) hard)
  · rw [Final, reservations_append, hl, Option.toList_none, List.append_nil]
    exact h.final

/-- A reservation is answered: granted while nothing is spent, or refused. -/
theorem Lasting.answer (h : Lasting ls w) {l : Label Party Op Ret GoalRunner.Point} {answer : Party × Option BudgetKind}
    (hl : reservation l = some answer) (hspent : w.budget.Spent → w'.budget.Spent)
    (hgranted : answer.2 = none → ¬w.budget.Spent) (hrefused : Hard answer → w'.budget.Spent) :
    Lasting (ls ++ [l]) w' := by
  constructor
  · intro earlier hmem hard
    rw [reservations_append, hl] at hmem
    rcases List.mem_append.mp hmem with hold | hlast
    · exact hspent (h.spent earlier hold hard)
    · cases List.mem_singleton.mp hlast
      exact hrefused hard
  · rw [Final, reservations_append, hl]
    refine List.pairwise_append.mpr ⟨h.final, List.pairwise_singleton _ _, ?_⟩
    intro earlier hold later hlast hard hnone
    cases List.mem_singleton.mp hlast
    exact hgranted hnone (h.spent earlier hold hard)

/-- **One call keeps what is spent spent.** -/
theorem Lasting.call (h : Lasting ls w) (hdealt : Dealt ls v w) (hallows : (hand i).allows o (v i))
    (hexec : exec g i o w r = some w') (hmeasured : Measured (ls ++ [.call i o r])) :
    Lasting (ls ++ [.call i o r]) w' := by
  by_cases hspares : o.Spares
  · have hbudget := (exec_spares hexec hspares).1
    have hspent : w.budget.Spent → w'.budget.Spent := fun hspent => hbudget ▸ hspent
    cases o with
    | reserveAttempt => exact absurd hspares id
    | _ => exact h.quiet rfl hspent
  · cases o with
    | setBudget ledger =>
        -- nobody has asked for a reservation yet
        obtain ⟨rfl, hnot, _⟩ := hallows
        have hnone := hdealt.unasked hnot
        constructor
        · intro answer hmem
          rw [reservations_append, hnone] at hmem
          cases hmem
        · rw [Final, reservations_append, hnone]
          exact .nil
    | reserveAttempt =>
        simp only [exec, BudgetLedger.reserveAttempt] at hexec
        cases hcheck : w.budget.checkCanStartAttempt with
        | ok _ =>
            have hfree := BudgetLedger.not_spent hcheck
            simp only [hcheck] at hexec
            cases r with
            | ok _ => exact h.answer rfl (fun hspent => absurd hspent hfree) (fun _ => hfree) (by rintro (h | h) <;> cases h)
            | error e => cases hexec
        | error e =>
            simp only [hcheck] at hexec
            cases r with
            | ok _ => cases hexec
            | error e' =>
                simp only at hexec
                split at hexec
                · next heq =>
                    cases hexec
                    rw [heq]
                    refine h.answer rfl ?_ (by rintro ⟨⟩) ?_
                    · rw [World.note_budget]
                      exact id
                    · intro hard
                      rw [World.note_budget]
                      exact BudgetLedger.spent_of_refused hcheck (by simpa [Hard] using hard)
                · cases hexec
    | recordUsage usage =>
        cases hexec
        refine h.quiet rfl fun hspent => hspent.record ?_
        exact hmeasured usage.tokens (List.mem_filterMap.mpr ⟨_, List.mem_append_right _ (List.mem_singleton_self _), rfl⟩)
    | gather run batch =>
        simp only [exec] at hexec
        split at hexec
        · cases hexec
          exact h.quiet rfl id
        · cases hexec
    | _ => exact absurd trivial hspares

end Hands

/-! ## Every run -/

/-- **No run starts more attempts than its budget allows, nor one that was not reserved**; and while no usage
takes tokens back, a refusal because of attempts or tokens is final. -/
theorem run_budgeted (g : GoalRunner) (plan : Plan) (gen : Generated) (w : World)
    (c : Conf Party Op Ret PyExn GoalRunner.Point Result World) (ls : List (Label Party Op Ret GoalRunner.Point))
    (hcoroutines : w.coroutines = []) (hpath : (system g plan gen).Path (begun g plan gen w) ls c) :
    Capped ls c.world ∧ (Measured ls → Final ls) := by
  have hinit : Dealt [] (fun _ => {}) w := by
    refine ⟨nofun, fun hne => ?_, fun _ => rfl, nofun, fun _ => rfl, fun ls₁ hls i => ?_⟩
    · rw [hcoroutines] at hne
      exact absurd rfl hne
    · rw [List.prefix_nil.mp hls]
      exact le_rfl
  have hpre : ∀ i, HandPre i .start {} := by
    intro i
    cases i with
    | execute => rfl
    | coroutine n => trivial
    | cancelRun n => trivial
  have hjump : ∀ ls i s v w, Dealt ls v w ∧ (Measured ls → Lasting ls w) →
      Dealt (ls ++ [.jump i s]) v w ∧ (Measured (ls ++ [.jump i s]) → Lasting (ls ++ [.jump i s]) w) := by
    rintro ls i s v w ⟨hdealt, hlasting⟩
    have hsame : Dealt (ls ++ [.jump i s]) (Function.update v i (v i)) w :=
      hdealt.quiet rfl rfl rfl (.inl rfl) (fun hne => .inl hne) rfl rfl
    rw [Function.update_eq_self] at hsame
    exact ⟨hsame, fun hmeasured => (hlasting hmeasured.init).quiet rfl id⟩
  obtain ⟨v, ⟨hdealt, hlasting⟩, _⟩ := System.Path.watched hand HandPre
    (fun ls v w => Dealt ls v w ∧ (Measured ls → Lasting ls w)) (hand_code g plan gen)
    (fun ls i o r v w w' hallows hexec h => ⟨h.1.call hallows hexec,
      fun hmeasured => (h.2 hmeasured.init).call h.1 hallows hexec hmeasured⟩)
    hjump (fun _ => {}) hpre ⟨hinit, fun _ => ⟨nofun, .nil⟩⟩ hpath
  refine ⟨⟨?_, hdealt.reserved⟩, fun hmeasured => (hlasting hmeasured).final⟩
  have hle : (started ls).length ≤ (granted ls).length :=
    (List.subperm_ext_iff.mpr fun i _ => hdealt.reserved ls (List.prefix_refl ls) i).length_le
  cases hready : (v .execute).ready with
  | true =>
      obtain ⟨hgranted, hmax⟩ := hdealt.spent hready
      omega
  | false =>
      rw [granted, hdealt.unasked hready] at hle
      exact hle.trans (Nat.zero_le _)

/-- Two tasks that may run in parallel. -/
def pair : Plan := ⟨"goal", [{ id := "a", objective := "write" }, { id := "b", objective := "test" }]⟩

/-- A budget of a single token. -/
def frugal : GoalRunner := { mockRunner with maxTokensPerRun := 1 }

/-- The attempts of two tasks are reserved and started; the first fails and reports `first` tokens, and its task
asks for another attempt; then the second does, with `second` tokens. -/
def pairTurns (first second : Int) : List (Party × ((o : Op) → World → Ret o)) :=
  turns frugal {} .execute 20 ++ turns frugal {} (.coroutine 0) 20 ++ turns frugal {} (.coroutine 1) 20 ++
    turns frugal { runner := .ok { success := false, tokens := some first } } (.coroutine 0) 12 ++
      turns frugal { runner := .ok { success := false, tokens := some second } } (.coroutine 1) 12

/-- The steps of that run. -/
def pairLabels (first second : Int) : List (Label Party Op Ret GoalRunner.Point) :=
  (system frugal pair ids).labels (pairTurns first second) (begun frugal pair ids { db := {} })

theorem run_budgeted_pair :
    (reservations (pairLabels 1 5)).map Prod.snd = [none, none, some .tokens, some .tokens] ∧
      Capped (pairLabels 1 5) ((system frugal pair ids).play (pairTurns 1 5) (begun frugal pair ids { db := {} })).world ∧
        Final (pairLabels 1 5) := by
  have h := run_budgeted frugal pair ids { db := {} } _ _ rfl
    ((system frugal pair ids).play_path (pairTurns 1 5) (begun frugal pair ids { db := {} }))
  refine ⟨by decide +kernel, h.1, h.2 ?_⟩
  show ∀ tokens ∈ (pairLabels 1 5).filterMap reported, 0 ≤ tokens
  decide +kernel

/-- A runner that reports tokens below zero takes back what stopped another task: a reservation is refused for
tokens, and a later one is granted. -/
theorem refusal_not_final : ∃ ls c, (system frugal pair ids).Path (begun frugal pair ids { db := {} }) ls c ∧
    (reservations ls).map Prod.snd = [none, none, some .tokens, none] ∧ ¬Final ls := by
  have hanswers : reservations (pairLabels 1 (-5)) = [(.coroutine 0, none), (.coroutine 1, none),
      (.coroutine 0, some .tokens), (.coroutine 1, none)] := by
    decide +kernel
  refine ⟨_, _, System.play_path _ (pairTurns 1 (-5)) _, ?_, ?_⟩
  · exact (congrArg (List.map Prod.snd) hanswers).trans rfl
  · intro hfinal
    have hpairwise : (reservations (pairLabels 1 (-5))).Pairwise fun earlier later => Hard earlier → later.2 ≠ none :=
      hfinal
    rw [hanswers] at hpairwise
    simp [Hard] at hpairwise

end AtlasFlow.Reference
