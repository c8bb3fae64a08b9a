import Mathlib.Tactic.Common

/-!
# Promises kept all through a run

A system takes steps, where it can. `Keeps` says that its states are good at every moment of a run and that every step
does what is promised of it. An invariant that is kept, with the promise, by the steps that meet a condition gives this
for every run of such steps (`keeps_of_always`). Where any other step breaks the promise or ends in a state that is not
good, it holds for no other run (`keeps_iff_always`).
-/

namespace Concurrency

variable {σ ε : Type} (step : σ → ε → Option σ) (Good : σ → Prop) (Promise : σ → ε → σ → Prop) (C : σ → ε → Prop)

/-- At every moment of a run all is as promised. A step that cannot be taken ends the run. -/
def Keeps : σ → List ε → Prop
  | s, [] => Good s
  | s, e :: es => Good s ∧ ∀ s', step s e = some s' → Promise s e s' ∧ Keeps s' es

/-- Every step of a run meets a condition. -/
def Always : σ → List ε → Prop
  | _, [] => True
  | s, e :: es => ∀ s', step s e = some s' → C s e ∧ Always s' es

/-- The state after a run, if all its steps can be taken. -/
def after : σ → List ε → Option σ
  | s, [] => some s
  | s, e :: es => (step s e).bind fun s' => after s' es

variable {step Good Promise C}

/-- What every step keeps of the steps so far and the state holds after a run. -/
theorem history_after {P : List ε → σ → Prop}
    (kept : ∀ before s e s', P before s → step s e = some s' → P (before ++ [e]) s') (before es : List ε) {s s' : σ}
    (h : P before s) (hafter : after step s es = some s') : P (before ++ es) s' := by
  induction es generalizing before s with
  | nil =>
    rw [List.append_nil]
    exact Option.some.inj hafter ▸ h
  | cons e es ih =>
    obtain ⟨next, hstep, hrest⟩ := Option.bind_eq_some_iff.mp hafter
    rw [List.append_cons]
    exact ih (before ++ [e]) (kept before s e next h hstep) hrest

/-- What every step keeps of the state holds after a run. -/
theorem inv_after {P : σ → Prop} (kept : ∀ s e s', P s → step s e = some s' → P s') {es : List ε} {s s' : σ}
    (h : P s) (hafter : after step s es = some s') : P s' :=
  history_after (P := fun _ s => P s) (fun _ s e s' => kept s e s') [] es h hafter

theorem Keeps.good {s : σ} {es : List ε} (h : Keeps step Good Promise s es) : Good s := by
  cases es with
  | nil => exact h
  | cons e es => exact h.1

theorem Keeps.good_after {s s' : σ} {es : List ε} (h : Keeps step Good Promise s es)
    (hafter : after step s es = some s') : Good s' := by
  induction es generalizing s with
  | nil => exact Option.some.inj hafter ▸ h
  | cons e es ih =>
    obtain ⟨next, hstep, hrest⟩ := Option.bind_eq_some_iff.mp hafter
    exact ih (h.2 next hstep).2 hrest

section

variable {Inv : σ → Prop} (good : ∀ s, Inv s → Good s)
  (kept : ∀ s e s', Inv s → step s e = some s' → C s e → Inv s' ∧ Promise s e s')

include good kept

theorem keeps_of_always {s : σ} (h : Inv s) {es : List ε} (halways : Always step C s es) :
    Keeps step Good Promise s es := by
  induction es generalizing s with
  | nil => exact good s h
  | cons e es ih =>
    refine ⟨good s h, fun s' hstep => ?_⟩
    obtain ⟨hmeets, hrest⟩ := halways s' hstep
    obtain ⟨hinv, hpromise⟩ := kept s e s' h hstep hmeets
    exact ⟨hpromise, ih hinv hrest⟩

theorem keeps_iff_always
    (broken : ∀ s e s', Inv s → step s e = some s' → ¬ C s e → ¬ (Promise s e s' ∧ Good s'))
    {s : σ} (h : Inv s) (es : List ε) : Keeps step Good Promise s es ↔ Always step C s es := by
  refine ⟨fun hkeeps => ?_, keeps_of_always good kept h⟩
  induction es generalizing s with
  | nil => trivial
  | cons e es ih =>
    intro s' hstep
    obtain ⟨hpromise, hrest⟩ := hkeeps.2 s' hstep
    have hmeets : C s e := by
      by_contra hnot
      exact broken s e s' h hstep hnot ⟨hpromise, hrest.good⟩
    exact ⟨hmeets, ih (kept s e s' h hstep hmeets).1 hrest⟩

end

theorem guard_eq_some {p : Prop} [Decidable p] {s s' : σ} : (if p then some s else none) = some s' ↔ p ∧ s = s' := by
  rw [Option.ite_none_right_eq_some, Option.some_inj]

end Concurrency
