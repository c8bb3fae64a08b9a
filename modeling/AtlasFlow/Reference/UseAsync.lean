import AtlasFlow.Concurrency.Generations
import AtlasFlow.Concurrency.Promises

/-!
# Loading in the background

`hooks/useAsync.ts`. Each run of its effect calls the loader, and the callbacks of the promise come at any time later:
`then` or `catch`, and after it `finally`. `reload`, a changed dependency and a poll all end in another run of the
effect. What a screen shows is a matter of the newest call alone (`useAsync_shows_newest`): a slow first request that
lands after a faster second one overwrites nothing.
-/

namespace AtlasFlow.Reference.UseAsync

open Concurrency

variable {α : Type}

structure AsyncState (α : Type) where
  data : Option α := none
  error : Option String := none
  loading : Bool := true
  deriving DecidableEq, Repr

/-- A callback of a promise: of `then`, of `catch` with the message of the cause, and of `finally`. -/
inductive Callback (α : Type)
  | result (data : α)
  | failure (cause : String)
  | settled
  deriving DecidableEq, Repr

/-- `setLoading(true)`. -/
def begins (state : AsyncState α) : AsyncState α := { state with loading := true }

/-- What the callback of the current generation sets. -/
def sets : Callback α → AsyncState α → AsyncState α
  | .result data, state => { state with data := some data, error := none }
  | .failure cause, state => { state with error := some cause }
  | .settled, state => { state with loading := false }

/-- A hook: `generation.current`, what each call's promise has called back, and the state. -/
abbrev Hook (α : Type) := Generations (Callback α) (AsyncState α)

def mounted : Hook α := Generations.initial {}

inductive Event (α : Type)
  | effect
  | callback (call : Nat) (callback : Callback α)

/-- A promise settles once, and `finally` comes after it. -/
def mayCall (before : List (Callback α)) : Callback α → Bool
  | .result _ | .failure _ => before.isEmpty
  | .settled => before.length = 1 && !before.any fun
    | .settled => true
    | _ => false

def step (hook : Hook α) : Event α → Option (Hook α)
  | .effect => some (hook.start begins)
  | .callback call callback =>
    if 0 < call ∧ call ≤ hook.newest ∧ mayCall (hook.reports call) callback = true then
      some (hook.report sets call callback)
    else none

/-! ## What is shown -/

/-- The callbacks of a promise, as far as they have come. -/
inductive Settling : List (Callback α) → Prop
  | pending : Settling []
  | answered (data : α) : Settling [.result data]
  | failed (cause : String) : Settling [.failure cause]
  | done (first : Callback α) (hfirst : Settling [first]) : Settling [first, .settled]

/-- A hook shows what was shown when the newest call was made, and what became of that call. -/
structure Shows (hook : Hook α) : Prop where
  loading : hook.shown.loading = false ↔ .settled ∈ hook.reports hook.newest
  pending : hook.reports hook.newest = [] → hook.shown.data = hook.before.data ∧ hook.shown.error = hook.before.error
  result : ∀ data, .result data ∈ hook.reports hook.newest → hook.shown.data = some data ∧ hook.shown.error = none
  failure : ∀ cause, .failure cause ∈ hook.reports hook.newest →
    hook.shown.data = hook.before.data ∧ hook.shown.error = some cause
  /-- The callbacks that had an effect came in the order of their calls. -/
  ordered : hook.taken.Pairwise fun x y => x.1 ≤ y.1

/-- The invariant of a run. -/
structure Inv (hook : Hook α) : Prop where
  sound : hook.Sound sets
  settling : ∀ call, Settling (hook.reports call)
  before : hook.before.loading = true

variable {hook hook' : Hook α}

theorem Inv.mounted : Inv (mounted : Hook α) := ⟨.initial _, fun _ => .pending, rfl⟩

theorem settling_append {before : List (Callback α)} (h : Settling before) {callback : Callback α}
    (hmay : mayCall before callback = true) : Settling (before ++ [callback]) := by
  cases callback with
  | result data =>
      rw [List.isEmpty_iff.mp hmay]
      exact .answered data
  | failure cause =>
      rw [List.isEmpty_iff.mp hmay]
      exact .failed cause
  | settled =>
      cases h with
      | pending => cases hmay
      | answered data => exact .done _ (.answered data)
      | failed cause => exact .done _ (.failed cause)
      | done first hfirst => simp [mayCall] at hmay

theorem Inv.step {e : Event α} (h : Inv hook) (hstep : step hook e = some hook') : Inv hook' := by
  cases e with
  | effect =>
      cases hstep
      exact ⟨h.sound.start, h.settling, rfl⟩
  | callback call callback =>
      obtain ⟨⟨-, hcall, hmay⟩, rfl⟩ := guard_eq_some.mp hstep
      refine ⟨h.sound.report hcall callback, fun other => ?_, h.before⟩
      show Settling (Function.update hook.reports call _ other)
      by_cases hother : other = call
      · subst hother
        rw [Function.update_self]
        exact settling_append (h.settling other) hmay
      · rw [Function.update_of_ne hother]
        exact h.settling other

/-- **What the invariant shows**, by the callbacks that have come. -/
theorem Inv.shows (h : Inv hook) : Shows hook := by
  have hshown := h.sound.shown_eq
  have hsettling := h.settling hook.newest
  have hbefore := h.before
  constructor
  · rw [hshown]
    generalize hook.reports hook.newest = reports at hsettling
    cases hsettling with
    | pending => simp [hbefore]
    | answered data => simp [sets, hbefore]
    | failed cause => simp [sets, hbefore]
    | done first hfirst => simp [sets]
  · intro hpending
    rw [hshown, hpending]
    exact ⟨rfl, rfl⟩
  · intro data hdata
    rw [hshown]
    generalize hook.reports hook.newest = reports at hsettling hdata
    cases hsettling with
    | pending => cases hdata
    | answered other => cases List.mem_singleton.mp hdata; exact ⟨rfl, rfl⟩
    | failed cause => cases List.mem_singleton.mp hdata
    | done first hfirst =>
        rcases List.mem_cons.mp hdata with rfl | hdata
        · exact ⟨rfl, rfl⟩
        · cases List.mem_singleton.mp hdata
  · intro cause hcause
    rw [hshown]
    generalize hook.reports hook.newest = reports at hsettling hcause
    cases hsettling with
    | pending => cases hcause
    | answered other => cases List.mem_singleton.mp hcause
    | failed other => cases List.mem_singleton.mp hcause; exact ⟨rfl, rfl⟩
    | done first hfirst =>
        rcases List.mem_cons.mp hcause with rfl | hcause
        · exact ⟨rfl, rfl⟩
        · cases List.mem_singleton.mp hcause
  · exact h.sound.ordered

/-- **A screen shows the newest call**, in every order of effects and callbacks: what was shown while it is pending, then
its data without an error, or its error beside the data of before; it is loading until that call has settled, and no
callback has an effect after one of a later call. -/
theorem useAsync_shows_newest (es : List (Event α)) (hook : Hook α) (h : after step mounted es = some hook) : Shows hook :=
  (inv_after (P := Inv) (fun _ _ _ hinv hstep => hinv.step hstep) Inv.mounted h).shows

/-- The second request answers first; the first one's late answer is dropped. -/
theorem useAsync_shows_newest_slowFirst :
    Shows (((((mounted : Hook ℕ).start begins).start begins).report sets 2 (.result 7)).report sets 1 (.result 5)) :=
  useAsync_shows_newest [.effect, .effect, .callback 2 (.result 7), .callback 1 (.result 5)] _ rfl

end AtlasFlow.Reference.UseAsync
