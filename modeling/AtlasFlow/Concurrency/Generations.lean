import Mathlib.Data.List.Pairwise
import Mathlib.Logic.Function.Basic

/-!
# Calls that supersede each other

Calls are numbered in the order in which they are started, and each reports any number of times, whenever it likes. A
report is taken if no later call has been started since, and dropped otherwise. What is shown is then what it was when
the newest call was started, and what that call has reported since (`Sound.shown_eq`): reports of other calls, early or
late, make no difference. No call's report is taken after one of a later call (`Sound.ordered`).
-/

namespace Concurrency

/-- The calls started so far, with what they reported; for an observer, what was shown when the newest was started,
and the reports taken. -/
structure Generations (ρ V : Type) where
  newest : Nat := 0
  reports : Nat → List ρ := fun _ => []
  shown : V
  before : V
  taken : List (Nat × ρ) := []

namespace Generations

variable {ρ V : Type} (begins : V → V) (takes : ρ → V → V) (g : Generations ρ V)

/-- Nothing has been started. -/
def initial (v : V) : Generations ρ V := { shown := v, before := v }

/-- A call is started, and supersedes the others. -/
def start : Generations ρ V :=
  { g with newest := g.newest + 1, shown := begins g.shown, before := begins g.shown }

/-- Call `n` reports. -/
def report (n : Nat) (r : ρ) : Generations ρ V :=
  { g with
    reports := Function.update g.reports n (g.reports n ++ [r])
    shown := if n = g.newest then takes r g.shown else g.shown
    taken := if n = g.newest then g.taken ++ [(n, r)] else g.taken }

/-- What holds of the calls at every moment. -/
structure Sound : Prop where
  fresh : ∀ n, g.newest < n → g.reports n = []
  shown_eq : g.shown = (g.reports g.newest).foldl (fun v r => takes r v) g.before
  reported : ∀ x ∈ g.taken, x.2 ∈ g.reports x.1 ∧ x.1 ≤ g.newest
  ordered : g.taken.Pairwise fun x y => x.1 ≤ y.1

variable {begins takes g}

theorem Sound.initial (v : V) : (initial v : Generations ρ V).Sound takes where
  fresh _ _ := rfl
  shown_eq := rfl
  reported _ hx := absurd hx List.not_mem_nil
  ordered := List.Pairwise.nil

/-- **Starting a call.** -/
theorem Sound.start (h : g.Sound takes) : (g.start begins).Sound takes where
  fresh n hn := h.fresh n (Nat.lt_of_succ_lt hn)
  shown_eq := by
    show begins g.shown = (g.reports (g.newest + 1)).foldl _ (begins g.shown)
    rw [h.fresh _ (Nat.lt_succ_self g.newest)]
    rfl
  reported x hx := ⟨(h.reported x hx).1, Nat.le_succ_of_le (h.reported x hx).2⟩
  ordered := h.ordered

/-- **A report** of a call that has been started. -/
theorem Sound.report (h : g.Sound takes) {n : Nat} (hn : n ≤ g.newest) (r : ρ) : (g.report takes n r).Sound takes := by
  have hgrows : ∀ m, g.reports m ⊆ (g.report takes n r).reports m := by
    intro m s hs
    show s ∈ Function.update g.reports n (g.reports n ++ [r]) m
    by_cases hm : m = n
    · subst hm
      rw [Function.update_self]
      exact List.mem_append_left _ hs
    · rwa [Function.update_of_ne hm]
  have hown : r ∈ (g.report takes n r).reports n := by
    show r ∈ Function.update g.reports n (g.reports n ++ [r]) n
    rw [Function.update_self]
    exact List.mem_append_right _ (List.mem_singleton_self r)
  constructor
  · intro m hm
    have hne : m ≠ n := fun heq => absurd hn (Nat.not_le_of_lt (heq ▸ hm))
    show Function.update g.reports n _ m = []
    rw [Function.update_of_ne hne]
    exact h.fresh m hm
  · show (if n = g.newest then takes r g.shown else g.shown) = (Function.update g.reports n _ g.newest).foldl _ g.before
    split
    · next heq =>
      rw [heq, Function.update_self, List.foldl_append, ← h.shown_eq]
      rfl
    · next hne =>
      rw [Function.update_of_ne (Ne.symm hne)]
      exact h.shown_eq
  · intro x hx
    show _ ∧ x.1 ≤ g.newest
    have hold : x ∈ g.taken → x.2 ∈ (g.report takes n r).reports x.1 ∧ x.1 ≤ g.newest := fun hx =>
      ⟨hgrows x.1 (h.reported x hx).1, (h.reported x hx).2⟩
    simp only [Generations.report] at hx
    split at hx
    · rcases List.mem_append.mp hx with hx | hx
      · exact hold hx
      · rw [List.mem_singleton.mp hx]
        exact ⟨hown, hn⟩
    · exact hold hx
  · show (if n = g.newest then g.taken ++ [(n, r)] else g.taken).Pairwise _
    split
    · next heq =>
      rw [List.pairwise_append]
      refine ⟨h.ordered, List.pairwise_singleton .., fun x hx y hy => ?_⟩
      rw [List.mem_singleton.mp hy, heq]
      exact (h.reported x hx).2
    · exact h.ordered

end Generations

end Concurrency
