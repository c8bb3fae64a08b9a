import AtlasFlow.Persistence.Database

/-!
# Plans, and the rule that a reviewed one cannot change

`PlanRepository`. Saving is a find followed, one await later, by an upsert of the whole row; the
guard between them has four cases by the stored and the incoming state. `saveAsync_cases` says what
one undisturbed save can do, and everything about sequences of saves follows from it.

What does not follow is that a locked plan keeps its content: the case that lets a locked plan be
consumed overwrites every column with the incoming ones and compares none of them
(`lockedPlansAreImmutable_iff`).
-/

namespace AtlasFlow

open Concurrency SqlValues

namespace PlanRepository

/-- `FindAsync`. -/
def findAsync (id : PlanId) (ct : CancellationToken) : Program (Option Plan) := do
  match ← Prog.ofExcept (← Prog.op (.selectPlan id ct)) with
  | none => return none
  | some row => return some (← Prog.ofExcept row.read)

/-- `WouldChange`: whether writing `incoming` would alter the row `existing` is written as. -/
def wouldChange (existing incoming : Plan) : Bool :=
  PlanRow.parametersFor existing ≠ PlanRow.parametersFor incoming

def immutableAfter (plan : Plan) (state : PlanState) : Exn :=
  .persistence s!"Plan {plan.id.value} is immutable after {state.name}"

/-- `SaveAsync`. -/
def saveAsync (plan : Plan) (ct : CancellationToken) : Program Unit := do
  match ← findAsync plan.id ct with
  | none => Prog.ofExcept (← Prog.op (.execute (.plan (PlanRow.parametersFor plan)) ct))
  | some existing =>
      let isBeingConsumed := existing.state = .locked ∧ plan.state = .consumed
      if existing.state ≠ .draft ∧ ¬isBeingConsumed then
        if wouldChange existing plan then throw (immutableAfter plan existing.state)
      else Prog.ofExcept (← Prog.op (.execute (.plan (PlanRow.parametersFor plan)) ct))

/-! ## One save -/

/-- The guard of `SaveAsync`: the stored plan is past draft, and is not just being consumed. -/
def Guarded (existing plan : Plan) : Prop :=
  existing.state ≠ .draft ∧ ¬(existing.state = .locked ∧ plan.state = .consumed)

instance (existing plan : Plan) : Decidable (Guarded existing plan) :=
  inferInstanceAs (Decidable (_ ∧ _))

/-- **What one save can do**: the ways it can end, and what it leaves. -/
inductive SaveCase (plan : Plan) (ct : CancellationToken) (db : Database) :
    Except Exn Unit → Database → Prop
  | calledOff (hct : ct = .source) : SaveCase plan ct db (.error .operationCanceled) db
  | unreadable {row : PlanRow} {e : Exn} (hfind : db.findPlan plan.id = some row)
      (hread : row.read = .error e) : SaveCase plan ct db (.error e) db
  | refused {row : PlanRow} {existing : Plan} (hfind : db.findPlan plan.id = some row)
      (hread : row.read = .ok existing) (hguard : Guarded existing plan)
      (hchange : wouldChange existing plan = true) :
      SaveCase plan ct db (.error (immutableAfter plan existing.state)) db
  | same {row : PlanRow} {existing : Plan} (hfind : db.findPlan plan.id = some row)
      (hread : row.read = .ok existing) (hguard : Guarded existing plan)
      (hchange : wouldChange existing plan = false) : SaveCase plan ct db (.ok ()) db
  | created (hfind : db.findPlan plan.id = none) :
      SaveCase plan ct db (.ok ()) (db.apply (.plan (PlanRow.parametersFor plan)))
  | replaced {row : PlanRow} {existing : Plan} (hfind : db.findPlan plan.id = some row)
      (hread : row.read = .ok existing) (hguard : ¬ Guarded existing plan) :
      SaveCase plan ct db (.ok ()) (db.apply (.plan (PlanRow.parametersFor plan)))

/-- What reading a plan can answer: it is called off, the row is not there, or the row is read,
strictly. -/
theorem findAsync_cases {id : PlanId} {ct : CancellationToken} {db db' : Database}
    {out : Except Exn (Option Plan)} (h : Prog.Runs Database.answers (findAsync id ct) db out db') :
    db' = db ∧
      ((ct = .source ∧ out = .error .operationCanceled) ∨
        (db.findPlan id = none ∧ out = .ok none) ∨
        ∃ row, db.findPlan id = some row ∧
          ((∃ plan, row.read = .ok plan ∧ out = .ok (some plan)) ∨
            ∃ e, row.read = .error e ∧ out = .error e)) := by
  simp only [findAsync, Prog.bind_eq, Prog.op_bind, Prog.runs_call] at h
  obtain ⟨r, w₁, hexec, h⟩ := h
  cases r with
  | error e =>
      simp only [Database.answers, Database.orCanceled] at hexec
      split at hexec
      · next hct =>
          cases hexec
          simp only [Prog.ofExcept_error, Prog.raise_bind, Prog.runs_raise] at h
          exact ⟨h.2, .inl ⟨hct.1, by rw [h.1, hct.2]⟩⟩
      · cases hexec
  | ok row? =>
      simp only [Database.answers, Database.orCanceled] at hexec
      split at hexec
      · next hrow =>
          cases hexec
          simp only [Prog.ofExcept_ok, Prog.ret_bind] at h
          cases row? with
          | none =>
              simp only [Prog.pure_eq, Prog.runs_ret] at h
              exact ⟨h.2, .inr (.inl ⟨hrow.symm, h.1⟩)⟩
          | some row =>
              cases hread : row.read with
              | error e =>
                  simp only [hread, Prog.ofExcept_error, Prog.raise_bind, Prog.runs_raise] at h
                  exact ⟨h.2, .inr (.inr ⟨row, hrow.symm, .inr ⟨e, hread, h.1⟩⟩)⟩
              | ok plan =>
                  simp only [hread, Prog.ofExcept_ok, Prog.ret_bind, Prog.pure_eq,
                    Prog.runs_ret] at h
                  exact ⟨h.2, .inr (.inr ⟨row, hrow.symm, .inl ⟨plan, hread, h.1⟩⟩)⟩
      · cases hexec

/-- What the upsert at the end of a save can do. -/
theorem execute_cases {write : Write} {ct : CancellationToken} {db db' : Database}
    {out : Except Exn Unit}
    (h : Prog.Runs Database.answers
      ((Prog.op (.execute write ct)).bind fun r : Except Exn Unit => Prog.ofExcept r) db out db') :
    (ct = .source ∧ out = .error .operationCanceled ∧ db' = db) ∨
      (out = .ok () ∧ db' = db.apply write) := by
  simp only [Prog.op_bind, Prog.runs_call] at h
  obtain ⟨r, w₁, hexec, h⟩ := h
  cases r with
  | error e =>
      simp only [Database.answers, Database.orCanceled] at hexec
      split at hexec
      · next hct =>
          cases hexec
          simp only [Prog.ofExcept_error, Prog.runs_raise] at h
          exact .inl ⟨hct.1, by rw [h.1, hct.2], h.2⟩
      · cases hexec
  | ok u =>
      cases hexec
      simp only [Prog.ofExcept_ok, Prog.runs_ret] at h
      exact .inr h

theorem saveAsync_cases {plan : Plan} {ct : CancellationToken} {db db' : Database}
    {out : Except Exn Unit} (h : Prog.Runs Database.answers (saveAsync plan ct) db out db') :
    SaveCase plan ct db out db' := by
  rw [saveAsync, Prog.bind_eq, Prog.runs_bind] at h
  rcases h with ⟨existing?, w₁, hfind, hrest⟩ | ⟨e, rfl, hfind⟩
  · obtain ⟨rfl, ⟨_, hout⟩ | ⟨hnone, hout⟩ | ⟨row, hrow, ⟨existing, hread, hout⟩ | ⟨_, _, hout⟩⟩⟩ :=
      findAsync_cases hfind
    · cases hout
    · cases hout
      rcases execute_cases hrest with ⟨hct, rfl, rfl⟩ | ⟨rfl, rfl⟩
      · exact .calledOff hct
      · exact .created hnone
    · cases hout
      simp only at hrest
      split at hrest
      · next hguard =>
          split at hrest
          · next hchange =>
              simp only [Prog.throw_eq, Prog.runs_raise] at hrest
              obtain ⟨rfl, rfl⟩ := hrest
              exact .refused hrow hread hguard hchange
          · next hchange =>
              simp only [Prog.pure_eq, Prog.runs_ret] at hrest
              obtain ⟨rfl, rfl⟩ := hrest
              exact .same hrow hread hguard (by simpa using hchange)
      · next hguard =>
          rcases execute_cases hrest with ⟨hct, rfl, rfl⟩ | ⟨rfl, rfl⟩
          · exact .calledOff hct
          · exact .replaced hrow hread hguard
    · cases hout
  · obtain ⟨rfl, ⟨hct, hout⟩ | ⟨_, hout⟩ | ⟨row, hrow, ⟨_, _, hout⟩ | ⟨e', hread, hout⟩⟩⟩ :=
      findAsync_cases hfind
    · cases hout
      exact .calledOff hct
    · cases hout
    · cases hout
    · cases hout
      exact .unreadable hrow hread

theorem findAsync_runs {id : PlanId} {ct : CancellationToken} {db : Database} {row : PlanRow}
    {plan : Plan} (hfind : db.findPlan id = some row) (hread : row.read = .ok plan) :
    Prog.Runs Database.answers (findAsync id ct) db (.ok (some plan)) db := by
  simp only [findAsync, Prog.bind_eq, Prog.op_bind, Prog.runs_call]
  refine ⟨.ok (some row), db, ?_, ?_⟩
  · simp [Database.answers, Database.orCanceled, hfind]
  · simp [hread]

/-- A save the guard lets through can write. -/
theorem saveAsync_runs {plan : Plan} {ct : CancellationToken} {db : Database} {row : PlanRow}
    {existing : Plan} (hfind : db.findPlan plan.id = some row) (hread : row.read = .ok existing)
    (hguard : ¬ Guarded existing plan) :
    Prog.Runs Database.answers (saveAsync plan ct) db (.ok ())
      (db.apply (.plan (PlanRow.parametersFor plan))) := by
  rw [saveAsync, Prog.bind_eq, Prog.runs_bind]
  refine .inl ⟨some existing, db, findAsync_runs hfind hread, ?_⟩
  unfold Guarded at hguard
  simp only
  rw [if_neg hguard]
  exact .call (r := .ok ()) rfl .ret

/-! ## Sequences of saves -/

/-- One call of `SaveAsync`, with the default token, run alone from one database to the next. -/
structure Save where
  before : Database
  plan : Plan
  outcome : Except Exn Unit
  after : Database
  runs : Prog.Runs Database.answers (saveAsync plan .none) before outcome after

/-- Saves of one plan id, each starting from the database the one before it left. -/
structure SaveSequence (id : PlanId) where
  saves : List Save
  ids : ∀ s ∈ saves, s.plan.id = id
  chain : saves.IsChain fun s t => t.before = s.after

/-- The row stored for a plan spells this state. -/
def Stored (db : Database) (id : PlanId) (state : PlanState) (row : PlanRow) : Prop :=
  db.findPlan id = some row ∧ row.state = text state

/-- Two rows that differ in their state at most. -/
def AgreeExceptState (a b : PlanRow) : Prop := { a with state := b.state } = b

/-- The save consumes the locked plan it finds, and brings other content than the row has. -/
def Save.RewritesLocked (s : Save) : Prop :=
  s.plan.state = .consumed ∧ ∃ row existing, s.before.findPlan s.plan.id = some row ∧
    row.read = .ok existing ∧ existing.state = .locked ∧
    ¬ AgreeExceptState row (PlanRow.parametersFor s.plan)

/-- What a locked plan promises: its content stays, its state moves to consumed once and for all, a
save that throws changes nothing, and writing the stored row again never throws. -/
structure LockedPlansAreImmutable {id : PlanId} (run : SaveSequence id) : Prop where
  content : ∀ (i j : Nat) (s t : Save) (row : PlanRow), i ≤ j → run.saves[i]? = some s →
    run.saves[j]? = some t → Stored s.before id .locked row →
    ∃ row', t.after.findPlan id = some row' ∧ AgreeExceptState row row' ∧
      (row'.state = text PlanState.locked ∨ row'.state = text PlanState.consumed)
  consumed : ∀ (i j : Nat) (s t : Save) (row : PlanRow), i ≤ j → run.saves[i]? = some s →
    run.saves[j]? = some t → Stored s.before id .consumed row → t.after.findPlan id = some row
  thrown : ∀ s ∈ run.saves, ∀ e, s.outcome = .error e →
    s.after.findPlan id = s.before.findPlan id
  rewrite : ∀ s ∈ run.saves, s.before.findPlan id = some (PlanRow.parametersFor s.plan) →
    s.outcome = .ok ()

/-! ### What one save of a sequence keeps -/

namespace Save

theorem cases (s : Save) : SaveCase s.plan .none s.before s.outcome s.after :=
  saveAsync_cases s.runs

theorem findPlan_written (db : Database) (plan : Plan) :
    (db.apply (.plan (PlanRow.parametersFor plan))).findPlan plan.id =
      some (PlanRow.parametersFor plan) := by
  rw [Database.findPlan_plan]
  exact if_pos rfl

theorem stored_unique {db : Database} {id : PlanId} {state : PlanState} {row row' : PlanRow}
    {existing : Plan} (h : Stored db id state row) (hfind : db.findPlan id = some row')
    (hread : row'.read = .ok existing) : row' = row ∧ existing.state = state := by
  have hrow : row' = row := Option.some.inj (hfind.symm.trans h.1)
  subst hrow
  have hstates := (ofText_eq_ok.mp (PlanRow.state_of_read hread)).symm.trans h.2
  exact ⟨rfl, text_inj.mp hstates⟩

/-- A locked row stays, or is replaced by the consumed row the save brings. -/
theorem locked_step (s : Save) {row : PlanRow} (h : Stored s.before s.plan.id .locked row) :
    s.after.findPlan s.plan.id = some row ∨
      (s.plan.state = .consumed ∧ (∃ existing, row.read = .ok existing) ∧
        s.after.findPlan s.plan.id = some (PlanRow.parametersFor s.plan)) := by
  obtain ⟨before, plan, outcome, after, hruns⟩ := s
  cases saveAsync_cases hruns with
  | calledOff hct => cases hct
  | unreadable | refused | same => exact .inl h.1
  | created hfind => rw [h.1] at hfind; cases hfind
  | replaced hfind hread hguard =>
      obtain ⟨rfl, hstate⟩ := stored_unique h hfind hread
      refine .inr ⟨?_, ⟨_, hread⟩, findPlan_written before plan⟩
      by_contra hconsumed
      exact hguard ⟨by rw [hstate]; decide, fun hboth => hconsumed hboth.2⟩

/-- A consumed row stays. -/
theorem consumed_step (s : Save) {row : PlanRow} (h : Stored s.before s.plan.id .consumed row) :
    s.after.findPlan s.plan.id = some row := by
  obtain ⟨before, plan, outcome, after, hruns⟩ := s
  cases saveAsync_cases hruns with
  | calledOff hct => cases hct
  | unreadable | refused | same => exact h.1
  | created hfind => rw [h.1] at hfind; cases hfind
  | replaced hfind hread hguard =>
      obtain ⟨rfl, hstate⟩ := stored_unique h hfind hread
      refine absurd ⟨?_, ?_⟩ hguard
      · rw [hstate]; decide
      · rw [hstate]; rintro ⟨hlocked, _⟩; cases hlocked

/-- A save that consumes the locked plan it finds writes its whole row. -/
theorem consumes (s : Save) {row : PlanRow} {existing : Plan} (hplan : s.plan.state = .consumed)
    (hfind : s.before.findPlan s.plan.id = some row) (hread : row.read = .ok existing)
    (hlocked : existing.state = .locked) :
    s.after.findPlan s.plan.id = some (PlanRow.parametersFor s.plan) := by
  obtain ⟨before, plan, outcome, after, hruns⟩ := s
  have hsame : ∀ {row' : PlanRow} {existing' : Plan}, before.findPlan plan.id = some row' →
      row'.read = .ok existing' → ¬ Guarded existing' plan := by
    intro row' existing' hfind' hread' hguard
    have hrow := Option.some.inj (hfind.symm.trans hfind')
    subst hrow
    rw [hread] at hread'
    cases hread'
    exact hguard.2 ⟨hlocked, hplan⟩
  cases saveAsync_cases hruns with
  | calledOff hct => cases hct
  | unreadable hfind' hread' =>
      have hrow := Option.some.inj (hfind.symm.trans hfind')
      subst hrow
      rw [hread] at hread'
      cases hread'
  | refused hfind' hread' hguard | same hfind' hread' hguard =>
      exact absurd hguard (hsame hfind' hread')
  | created | replaced => exact findPlan_written before plan

end Save

/-! ### Whole sequences -/

/-- What every save of a sequence keeps holds after every later one. -/
theorem SaveSequence.invariant {id : PlanId} (run : SaveSequence id) {P : Database → Prop}
    (step : ∀ s ∈ run.saves, P s.before → P s.after) {i j : Nat} {s t : Save} (hij : i ≤ j)
    (hs : run.saves[i]? = some s) (ht : run.saves[j]? = some t) (h : P s.before) : P t.after := by
  obtain ⟨n, rfl⟩ := Nat.exists_eq_add_of_le hij
  clear hij
  induction n generalizing t with
  | zero =>
      have hst : s = t := Option.some.inj (hs.symm.trans ht)
      subst hst
      exact step s (List.mem_of_getElem? hs) h
  | succ n ih =>
      obtain ⟨hlt, rfl⟩ := List.getElem?_eq_some_iff.mp ht
      have hu : run.saves[i + n]? = some run.saves[i + n] := List.getElem?_eq_getElem (by omega)
      have hbefore := List.isChain_iff_getElem.mp run.chain (i + n) hlt
      refine step _ (List.getElem_mem hlt) ?_
      show P (run.saves[i + n + 1]).before
      rw [hbefore]
      exact ih hu

/-- The row is the locked one, up to a move of its state to consumed. -/
def Descends (id : PlanId) (row : PlanRow) (db : Database) : Prop :=
  ∃ row', db.findPlan id = some row' ∧ AgreeExceptState row row' ∧
    (row'.state = text PlanState.locked ∨ row'.state = text PlanState.consumed)

/-- A save that brings no other content keeps the locked row. -/
theorem Save.descends_step (s : Save) {row : PlanRow} (hs : ¬ s.RewritesLocked)
    (h : Descends s.plan.id row s.before) : Descends s.plan.id row s.after := by
  obtain ⟨row', hfind, hagree, hlocked | hconsumed⟩ := h
  · rcases s.locked_step ⟨hfind, hlocked⟩ with hafter | ⟨hplan, ⟨existing, hread⟩, hafter⟩
    · exact ⟨row', hafter, hagree, .inl hlocked⟩
    · have hstate := (stored_unique ⟨hfind, hlocked⟩ hfind hread).2
      have hnew : AgreeExceptState row' (PlanRow.parametersFor s.plan) := by
        by_contra hno
        exact hs ⟨hplan, row', existing, hfind, hread, hstate, hno⟩
      refine ⟨_, hafter, ?_, .inr (congrArg text hplan)⟩
      unfold AgreeExceptState at hagree hnew ⊢
      rw [← hnew, ← hagree]
  · exact ⟨row', s.consumed_step ⟨hfind, hconsumed⟩, hagree, .inr hconsumed⟩

/-- **Locked plans are immutable exactly when no save consumes one with other content.** -/
theorem lockedPlansAreImmutable_iff {id : PlanId} (run : SaveSequence id) :
    LockedPlansAreImmutable run ↔ ∀ s ∈ run.saves, ¬ s.RewritesLocked := by
  constructor
  · rintro h s hs ⟨hplan, row, existing, hfind, hread, hlocked, hdiffers⟩
    obtain ⟨i, hi⟩ := List.getElem?_of_mem hs
    have hid := run.ids s hs
    have hstate : row.state = text PlanState.locked := by
      rw [ofText_eq_ok.mp (PlanRow.state_of_read hread), hlocked]
    obtain ⟨row', hafter, hagree, _⟩ :=
      h.content i i s s row (Nat.le_refl i) hi hi ⟨by rw [← hid]; exact hfind, hstate⟩
    rw [← hid, s.consumes hplan hfind hread hlocked] at hafter
    rw [← Option.some.inj hafter] at hagree
    exact hdiffers hagree
  · intro hrun
    constructor
    case content =>
      intro i j s t row hij hs ht h
      refine run.invariant (P := Descends id row) (fun u hu hdesc => ?_) hij hs ht
        ⟨row, h.1, rfl, .inl h.2⟩
      have hid := run.ids u hu
      subst hid
      exact u.descends_step (hrun u hu) hdesc
    case consumed =>
      intro i j s t row hij hs ht h
      refine (run.invariant (P := fun db => Stored db id .consumed row) (fun u hu hstored => ?_)
        hij hs ht h).1
      have hid := run.ids u hu
      subst hid
      exact ⟨u.consumed_step hstored, hstored.2⟩
    case thrown =>
      rintro ⟨before, plan, outcome, after, hruns⟩ hs e rfl
      cases saveAsync_cases hruns with
      | calledOff | unreadable | refused => rfl
    case rewrite =>
      rintro ⟨before, plan, outcome, after, hruns⟩ hs hsame
      have hid := run.ids _ hs
      subst hid
      cases saveAsync_cases hruns with
      | calledOff hct => cases hct
      | unreadable hfind hread =>
          rw [hsame] at hfind
          cases hfind
          rw [PlanRow.read_parametersFor] at hread
          cases hread
      | refused hfind hread _ hchange =>
          rw [hsame] at hfind
          cases hfind
          rw [PlanRow.read_parametersFor] at hread
          rw [← Except.ok.inj hread, wouldChange, PlanRow.parametersFor_persisted] at hchange
          simp at hchange
      | same | created | replaced => rfl

/-! ### A locked plan that is rewritten -/

/-- A reviewed plan, as it is locked. -/
def reviewed : Plan where
  id := ⟨"plan-1"⟩
  projectId := "atlas"
  goalId := ⟨"GOAL-1"⟩
  goalRevision := "r1"
  state := .locked
  autonomy := .supervised
  runner := "dummy"
  integrationTarget := "main"
  createdAt := ⟨0, 0⟩

/-- The reviewed plan, consumed under another runner. -/
def consumedElsewhere : Plan := { reviewed with state := .consumed, runner := "claude" }

/-- Saving it over the reviewed plan. -/
def rewriting : Save where
  before := { plans := [PlanRow.parametersFor reviewed] }
  plan := consumedElsewhere
  outcome := .ok ()
  after := { plans := [PlanRow.parametersFor consumedElsewhere] }
  runs := saveAsync_runs rfl (PlanRow.read_parametersFor reviewed) (by decide)

/-- The reviewed plan and the consumed one name different runners. -/
theorem not_lockedPlansAreImmutable :
    ¬ ∀ (id : PlanId) (run : SaveSequence id), LockedPlansAreImmutable run := by
  intro h
  have himm := h reviewed.id
    ⟨[rewriting], fun s hs => by rw [List.mem_singleton.mp hs]; rfl, .singleton _⟩
  obtain ⟨row, hrow, hagree, -⟩ := himm.content 0 0 rewriting rewriting
    (PlanRow.parametersFor reviewed) (Nat.le_refl 0) rfl rfl ⟨rfl, rfl⟩
  have hwritten : row = PlanRow.parametersFor consumedElsewhere :=
    Option.some.inj (hrow.symm.trans rfl)
  subst hwritten
  exact absurd (congrArg PlanRow.runner hagree) (by decide)

end PlanRepository

end AtlasFlow
